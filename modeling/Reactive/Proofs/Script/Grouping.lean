/-
  Parentheses around plain expressions.

  Parentheses may hold the parameters of an arrow, so the parser looks at their first tokens and, if
  these leave it open, tries to read parameters. Around plain expressions it never finds an arrow:
  either the attempt fails, or it ends at the closing parenthesis, behind which no arrow stands.
-/
import Reactive.Proofs.Script.Surroundings
import Reactive.Proofs.Script.Statement

namespace Reactive.Script.Parser

/-! ## How expressions begin -/

/-- The text is an expression without commas of its own, before what ends one. -/
def AsAssignment (x : List Char) (Q : Tree → Prop) : Prop :=
  ∀ b d gap rest k, x.length < b → x.length ≤ d → (∀ c ∈ gap, isGap c = true) → Behind rest k →
    k ∈ closings → Reads (assignmentRule (rules b d)) .module (gap ++ (x ++ rest)) rest Q

/-- The token starts an expression, and is neither a variable nor `this`. Prefix operators count
where they may stand. -/
def startsFixed (prefixed : Bool) : TokenKind → Bool
  | .word w => w ∈ ["null", "true", "false"] || prefixed && w ∈ ["typeof", "void", "delete"]
  | .string _ | .number _ => true
  | .punct p => p == "(" || prefixed && p ∈ ["+", "-", "!", "~", "++", "--"]
  | _ => false

/-- The word is a variable or `this`. -/
def opensName (w : String) : Bool := w == "this" || !specialWords.contains w

/-- The token starts an expression. -/
def startsPlain (prefixed : Bool) (k : TokenKind) : Bool :=
  startsFixed prefixed k || match k with
    | .word w => opensName w
    | _ => false

/-- Tokens that start no plain expression. -/
def outsiders : List TokenKind :=
  [.word "async", .word "await", .word "yield", .punct ")", .punct "]", .punct "[", .punct "\x7b",
    .punct ",", .punct "...", .punct ":", .punct "=", .punct "?", .punct "@"]

theorem startsPlain_facts {prefixed : Bool} {k : TokenKind} (h : startsPlain prefixed k = true) :
    k ∉ outsiders ∧ ∀ n, k ≠ .privateName n := by
  refine ⟨fun hmem => ?_, ?_⟩
  · have hnone : ∀ k ∈ outsiders, ∀ prefixed, startsPlain prefixed k = false := by decide
    rw [hnone k hmem] at h
    cases h
  · rintro n rfl
    cases h

theorem startsPlain_operand {k : TokenKind} (h : startsPlain false k = true) :
    UpdateOp.ofToken? k = none ∧ UnaryOp.ofToken? k = none := by
  constructor
  · unfold UpdateOp.ofToken?
    split
    · cases h
    · cases h
    · rfl
  · unfold UnaryOp.ofToken?
    split <;> first | rfl | exact absurd h (by decide)

/-- How an expression begins, in as many tokens as tell it from the parameters of an arrow. -/
inductive Lead (prefixed : Bool) (rest : List Char) : List Char → Prop where
  /-- With something that names no parameter. -/
  | fixed {text behind : List Char} {k : TokenKind} (h : Scans text k behind)
      (hk : startsFixed prefixed k = true) : Lead prefixed rest text
  /-- It is a name. -/
  | name {text : List Char} {w : String} (hw : opensName w = true) (h : Scans text (.word w) rest) :
      Lead prefixed rest text
  /-- With a name that a parameter would not go on like. -/
  | inside {text behind : List Char} {w : String} {k : TokenKind} (hw : opensName w = true)
      (h : Scans text (.word w) behind) (hbehind : Opens behind k)
      (hk : k ∉ [.punct ":", .punct "?", .punct ",", .punct "=", .punct ")"]) :
      Lead prefixed rest text
  /-- With a condition that is a name. -/
  | test {text behind tail : List Char} {w : String} {k : TokenKind} (hw : opensName w = true)
      (h : Scans text (.word w) behind) (hquestion : Starts behind (.punct "?") tail)
      (htail : Opens tail k) (hk : startsPlain true k = true) : Lead prefixed rest text

/-- How an item of a list begins. -/
inductive ItemLead (rest : List Char) : List Char → Prop where
  | plain {text : List Char} (h : Lead true rest text) : ItemLead rest text
  /-- It is an assignment to a variable, which a parameter with a default looks like. -/
  | assign {text value : List Char} {w : String} {k : TokenKind} (hw : opensName w = true)
      (h : Scans text (.word w) (spaced "=" ++ (value ++ rest)))
      (hopens : Opens (' ' :: (value ++ rest)) k)
      (hvalue : AsAssignment value fun _ => True)
      (hlength : value.length + rest.length < text.length) : ItemLead rest text

theorem opensName_startsPlain {w : String} (hw : opensName w = true) (prefixed : Bool) :
    startsPlain prefixed (.word w) = true := by
  rw [startsPlain, Bool.or_eq_true]
  exact .inr hw

/-- The first token of an expression. -/
theorem Lead.first {prefixed : Bool} {rest text : List Char} (h : Lead prefixed rest text) :
    ∃ k behind, Scans text k behind ∧ startsPlain prefixed k = true := by
  cases h with
  | fixed h hk => exact ⟨_, _, h, by simp [startsPlain, hk]⟩
  | name hw h => exact ⟨_, _, h, opensName_startsPlain hw _⟩
  | inside hw h => exact ⟨_, _, h, opensName_startsPlain hw _⟩
  | test hw h => exact ⟨_, _, h, opensName_startsPlain hw _⟩

/-- An expression whose surroundings go on otherwise than a parameter does. -/
theorem Lead.extend {prefixed : Bool} {rest rest' text : List Char} {k : TokenKind}
    (h : Lead prefixed rest' text) (hrest : Opens rest' k)
    (hk : k ∉ [.punct ":", .punct "?", .punct ",", .punct "=", .punct ")"]) :
    Lead prefixed rest text := by
  cases h with
  | fixed h hk => exact .fixed h hk
  | name hw h => exact .inside hw h hrest hk
  | inside hw h hbehind hk => exact .inside hw h hbehind hk
  | test hw h hquestion htail hk => exact .test hw h hquestion htail hk

theorem ItemLead.first {rest text : List Char} (h : ItemLead rest text) :
    ∃ k behind, Scans text k behind ∧ startsPlain true k = true := by
  cases h with
  | plain h => exact h.first
  | assign hw h => exact ⟨_, _, h, opensName_startsPlain hw _⟩

/-! ## Attempts -/

/-- Wherever the reader succeeds, the state it leaves is of this kind. -/
def Tries {α : Type} (p : Parser α) (c : Context) (text : List Char) (P : State → Prop) : Prop :=
  ∀ s : State, s.At text → s.context = c → ∀ a s', p s = .ok a s' → P s'

/-- The state stands before a text. -/
def State.Stands (s : State) (c : Context) (text : List Char) : Prop := s.At text ∧ s.context = c

section

variable {α β : Type} {p : Parser α} {f : α → Parser β} {c : Context} {text middle : List Char}
  {P P' : State → Prop} {Q : α → Prop} {k : TokenKind}

theorem bind_eq_ok {s s' : State} {b : β} (h : (p >>= f) s = .ok b s') :
    ∃ a s₁, p s = .ok a s₁ ∧ f a s₁ = .ok b s' := by
  replace h : EStateM.bind p f s = .ok b s' := h
  unfold EStateM.bind at h
  split at h
  · exact ⟨_, _, by assumption, h⟩
  · cases h

theorem Reads.tries (h : Reads p c text middle Q) :
    Tries p c text fun s => s.Stands c middle := by
  intro s hs hc a s' hrun
  obtain ⟨a', s₁, hrun', hreach, -⟩ := h s hs hc
  rw [hrun'] at hrun
  cases hrun
  exact ⟨hreach.at_rest, hreach.context.trans hc⟩

/-- A reader whose run is known, and an attempt behind it. -/
theorem Tries.bind (h : Reads p c text middle Q) (hf : ∀ a, Q a → Tries (f a) c middle P) :
    Tries (p >>= f) c text P := by
  intro s hs hc b s' hrun
  obtain ⟨a, s₁, hrun', hreach, ha⟩ := h s hs hc
  rw [run_bind hrun'] at hrun
  exact hf a ha s₁ hreach.at_rest (hreach.context.trans hc) b s' hrun

/-- One attempt behind another. -/
theorem Tries.after (h : Tries p c text P') (hf : ∀ a s, P' s → ∀ b s', f a s = .ok b s' → P s') :
    Tries (p >>= f) c text P := by
  intro s hs hc b s' hrun
  obtain ⟨a, s₁, hfirst, hsecond⟩ := bind_eq_ok hrun
  exact hf a s₁ (h s hs hc a s₁ hfirst) b s' hsecond

/-- Behind an attempt that never succeeds, none does. -/
theorem Tries.stops (h : Tries p c text fun _ => False) : Tries (p >>= f) c text P :=
  .after h fun _ _ h => h.elim

theorem tries_unexpected : Tries (unexpected : Parser α) c text P := by
  intro s _ _ a s' hrun
  cases hrun

theorem tries_tooDeep : Tries (throw .tooDeep : Parser α) c text P := by
  intro s _ _ a s' hrun
  cases hrun

theorem Tries.kind_bind {f : TokenKind → Parser β} (h : Opens text k) (hf : Tries (f k) c text P) :
    Tries (kind >>= f) c text P :=
  .bind (.kind h) fun _ hk => hk ▸ hf

theorem Tries.start_bind {f : Nat → Parser β} (hf : ∀ b, Tries (f b) c text P) :
    Tries (start >>= f) c text P :=
  .bind .start fun b _ => hf b

/-- An attempt in a changed context. -/
theorem Tries.within {change : Context → Context} {rest : List Char}
    (h : Tries p (change c) text fun s => s.Stands (change c) rest) :
    Tries (within change p) c text fun s => s.Stands c rest := by
  intro s hs hc a s' hrun
  obtain ⟨a', s₁, hrun', hdone⟩ := bind_eq_ok (p := p) (s := { s with context := change s.context })
    (f := fun a s₁ => .ok a { s₁ with context := s.context }) hrun
  cases hdone
  have hstands := h { s with context := change s.context } hs (congrArg change hc) _ _ hrun'
  exact ⟨hstands.1, hc⟩

/-- A punctuator that is not there stops the attempt. -/
theorem tries_expectPunct {p : String} (h : Opens text k) (hk : k ≠ .punct p) :
    Tries (expectPunct p) c text P := by
  refine .bind (.eatPunct_other h hk) ?_
  rintro _ rfl
  exact tries_unexpected

end

/-! ## Parameters -/

section

variable {b d : Nat} {gap x rest text behind : List Char} {k : TokenKind} {w : String}

/-- No decorator stands here. -/
theorem reads_decorators (hb : 1 ≤ b) (h : Opens text k) (hk : k ≠ .punct "@") :
    Reads (decorators (rules b d)) .module text text (· = []) := by
  obtain ⟨b, rfl⟩ := Nat.exists_eq_add_of_le' hb
  unfold decorators
  rw [bound_rules, itemsUntil]
  have hstop : Reads (do return !(← atPunct "@")) .module text text (· = true) := by
    refine .bind (.atPunct h "@") ?_
    rintro _ rfl
    rw [decide_eq_false hk]
    exact .pure rfl
  refine .bind hstop ?_
  rintro _ rfl
  exact .pure rfl

/-- A name is taken for a parameter, and `this` is not. -/
theorem tries_pattern_name {r : Rules} (hw : opensName w = true) (h : Starts text (.word w) behind)
    (hbehind : Opens behind k) :
    Tries (patternRule r) .module text fun s => s.Stands .module behind := by
  refine .start_bind fun _ => .kind_bind h.opens ?_
  by_cases hthis : w = "this"
  · subst hthis
    refine .bind (.token h.opens) fun t ht => ?_
    rw [ht]
    exact tries_unexpected
  · have hplain : w ∉ specialWords := by simpa [opensName, hthis] using hw
    simp only [specialWords, List.mem_append, not_or, List.mem_cons] at hplain
    refine (reads_bindingName ?_ ?_ h hbehind).tries
    · simpa [isBindingWord] using hplain.1
    · simp [hplain]

/-- What is no name is taken for no parameter. -/
theorem tries_pattern_fixed {r : Rules} {P : State → Prop} (hk : startsFixed true k = true)
    (h : Opens text k) : Tries (patternRule r) .module text P := by
  have hname : Tries bindingName .module text P := by
    refine .bind (.token h) fun t ht => ?_
    rw [ht]
    cases k with
    | word w =>
      have hreserved : isBindingWord w = false := by
        have hall : ∀ w ∈ ["null", "true", "false"] ++ ["typeof", "void", "delete"],
            isBindingWord w = false := by decide
        refine hall w ?_
        simpa [startsFixed, or_assoc] using hk
      dsimp only
      rw [hreserved]
      exact tries_unexpected
    | _ => exact tries_unexpected
  refine .start_bind fun _ => .kind_bind h ?_
  split
  · cases hk
  · cases hk
  · exact hname

/-- What an attempt to read a parameter leaves: it ends with the expression, or before a token that
no parameter is followed by. -/
def Passes (rest : List Char) (s : State) : Prop :=
  s.Stands .module rest
    ∨ ∃ text k, s.Stands .module text ∧ Opens text k ∧ k ∉ [.punct ",", .punct ")"]

/-- A parameter behind its name: a default may follow. -/
def parameterRest (r : Rules) ( begin : Nat) (pattern : Tree) : Parser Tree := do
  let value ← if ← eatPunct "=" then
      within (fun c => { c with allowIn := true }) r.assignment
    else pure .absent
  node .parameter begin ([] ++ [pattern, value])

theorem tries_parameterRest {r : Rules} (h : Opens text k) (hk : k ≠ .punct "=") ( begin : Nat)
    (pattern : Tree) :
    Tries (parameterRest r begin pattern) .module text fun s => s.Stands .module text := by
  refine .bind (.eatPunct_other h hk) ?_
  rintro _ rfl
  exact .bind (.pure (Q := fun _ => True) trivial) fun _ _ => (Reads.node _ _ _).tries

theorem tries_parameter (hlead : ItemLead rest (x ++ rest)) (hrest : Behind rest k)
    (hk : k ∈ [.punct ",", .punct ")"]) (hb : x.length < b) (hd : x.length ≤ d)
    (hgap : ∀ c ∈ gap, isGap c = true) :
    Tries (parameter (rules b d)) .module (gap ++ (x ++ rest)) (Passes rest) := by
  obtain ⟨k₁, behind, hscans, hk₁⟩ := hlead.first
  have hopens := (hscans.starts gap hgap).opens
  refine .start_bind fun begin => .bind (reads_decorators (by omega) hopens
    fun heq => (startsPlain_facts hk₁).1 (by simp [heq, outsiders])) ?_
  rintro _ rfl
  refine .bind .flawIf_false fun _ _ => ?_
  cases d with
  | zero => exact .stops tries_tooDeep
  | succ d =>
    cases hlead with
    | plain hlead =>
      cases hlead with
      | fixed h hfixed =>
        exact .stops (tries_pattern_fixed hfixed (h.starts gap hgap).opens)
      | name hw h =>
        have hne : k ≠ .punct "=" := by
          rintro rfl
          exact absurd hk (by decide)
        refine .after (tries_pattern_name hw (h.starts gap hgap) hrest.opens) ?_
        intro pattern s hs a s' hrun
        exact .inl (tries_parameterRest hrest.opens hne begin pattern s hs.1 hs.2 a s' hrun)
      | @inside behind w k₂ hw h hbehind hk₂ =>
        have hne : k₂ ≠ .punct "=" := by
          rintro rfl
          exact absurd hk₂ (by decide)
        refine .after (tries_pattern_name hw (h.starts gap hgap) hbehind) ?_
        intro pattern s hs a s' hrun
        have hstands := tries_parameterRest hbehind hne begin pattern s hs.1 hs.2 a s' hrun
        exact .inr ⟨_, _, hstands, hbehind, fun hmem => hk₂ (by simp_all)⟩
      | test hw h hquestion htail hk₃ =>
        refine .after (tries_pattern_name hw (h.starts gap hgap) hquestion.opens) ?_
        intro pattern s hs a s' hrun
        have hstands :=
          tries_parameterRest hquestion.opens (by decide) begin pattern s hs.1 hs.2 a s' hrun
        exact .inr ⟨_, _, hstands, hquestion.opens, by decide⟩
    | @assign value w k' hw h hvalueOpens hvalue hlength =>
      rw [List.length_append] at hlength
      have hequals : Starts (spaced "=" ++ (value ++ rest)) (.punct "=") (' ' :: (value ++ rest)) :=
        starts_equals _
      have hclosing : k ∈ closings := by
        simp only [List.mem_cons, List.not_mem_nil, or_false] at hk
        rcases hk with rfl | rfl <;> decide
      have hreads := hvalue b d [' '] rest k (by omega) (by omega) isGap_space hrest hclosing
      have hdefault (pattern : Tree) : Tries (parameterRest (rules b (d + 1)) begin pattern) .module
          (spaced "=" ++ (value ++ rest)) fun s => s.Stands .module rest := by
        refine .bind (.eatPunct hequals hvalueOpens) ?_
        rintro _ rfl
        exact .bind (.within hreads) fun _ _ => (Reads.node _ _ _).tries
      refine .after (tries_pattern_name hw (h.starts gap hgap) hequals.opens) fun pattern s hs => ?_
      exact fun a s' hrun => .inl (hdefault pattern s hs.1 hs.2 a s' hrun)

/-- The parameters stop before a token that none is followed by. -/
theorem tries_restList_stuck {item other : Parser Tree} {P : State → Prop} {bound : Nat}
    {afterRest : Bool} (h : Opens text k) (hk : k ∉ [.punct ",", .punct ")"]) :
    Tries (restList ")" item other bound false afterRest) .module text P := by
  simp only [List.mem_cons, List.not_mem_nil, or_false, not_or] at hk
  cases bound with
  | zero => exact tries_tooDeep
  | succ bound =>
    refine .bind (.atPunct h ")") ?_
    rintro _ rfl
    rw [decide_eq_false hk.2]
    exact .stops (tries_expectPunct h hk.1)

theorem behind_furtherItems (items : List (List Char)) (rest : List Char) :
    ∃ k ∈ [.punct ",", .punct ")"], Behind (furtherItems items ++ ')' :: rest) k := by
  cases items with
  | nil => exact ⟨_, by decide, behind_close rest⟩
  | cons y items => exact ⟨_, by decide, behind_comma _⟩

/-- How expressions begin that stand in a list. -/
def Leads (x : List Char) : Prop := ∀ rest k, Behind rest k → ItemLead rest (x ++ rest)

/-- The parameters of an arrow, up to the closing parenthesis. -/
abbrev parameterList (r : Rules) : Nat → Bool → Bool → Parser (List Tree) :=
  restList ")" (parameter r) (restParameter r)

/-- An item of a list that is tried as parameters, and those behind it. -/
theorem tries_nextParameter {items : List (List Char)} {bound : Nat} (hlead : Leads x)
    (hb : x.length < b) (hd : x.length ≤ d) (hgap : ∀ c ∈ gap, isGap c = true)
    (hitems : ∀ n, Tries (parameterList (rules b d) n false false) .module
      (furtherItems items ++ ')' :: rest) fun s => s.Stands .module (')' :: rest)) :
    Tries (do
      flawIf false
      if ← atPunct "..." then
        let t ← restParameter (rules b d)
        return t :: (← parameterList (rules b d) bound false true)
      else
        let t ← parameter (rules b d)
        return t :: (← parameterList (rules b d) bound false false)) .module
          (gap ++ (x ++ (furtherItems items ++ ')' :: rest)))
        fun s => s.Stands .module (')' :: rest) := by
  obtain ⟨k, hk, hbehind⟩ := behind_furtherItems items rest
  have hitem := hlead _ k hbehind
  obtain ⟨k₁, behind, hscans, hk₁⟩ := hitem.first
  refine .bind .flawIf_false fun _ _ => .bind (.atPunct (hscans.starts gap hgap).opens "...") ?_
  rintro _ rfl
  rw [decide_eq_false fun heq => (startsPlain_facts hk₁).1 (by simp [heq, outsiders])]
  refine .after (tries_parameter hitem hbehind hk hb hd hgap) fun t s hs ts s' hrun => ?_
  obtain ⟨ts', s₁, hrest, hdone⟩ := bind_eq_ok hrun
  cases hdone
  obtain hs | ⟨text, k', hs, hopens, hk'⟩ := hs
  · exact hitems _ s hs.1 hs.2 _ _ hrest
  · exact tries_restList_stuck (P := fun s => s.Stands .module (')' :: rest)) hopens hk' s hs.1 hs.2
      _ _ hrest

theorem tries_furtherParameters {items : List (List Char)}
    (hitems : ∀ y ∈ items, Leads y ∧ y.length < b ∧ y.length ≤ d) (n : Nat) (rest : List Char) :
    Tries (parameterList (rules b d) n false false) .module (furtherItems items ++ ')' :: rest)
      fun s => s.Stands .module (')' :: rest) := by
  induction items generalizing n with
  | nil =>
    cases n with
    | zero => exact tries_tooDeep
    | succ n =>
      refine .bind (.atPunct (starts_close rest).opens ")") ?_
      rintro _ rfl
      rw [decide_eq_true rfl]
      exact (Reads.pure (Q := fun _ => True) trivial).tries
  | cons y items ih =>
    cases n with
    | zero => exact tries_tooDeep
    | succ n =>
      obtain ⟨hlead, hb, hd⟩ := hitems y List.mem_cons_self
      obtain ⟨k, hk, hbehind⟩ := behind_furtherItems items rest
      obtain ⟨k₁, behind, hscans, hk₁⟩ := (hlead _ k hbehind).first
      have hopens := (hscans.starts [' '] isGap_space).opens
      have htext : furtherItems (y :: items) ++ ')' :: rest
          = ',' :: ([' '] ++ (y ++ (furtherItems items ++ ')' :: rest))) := by
        simp [furtherItems, led]
      rw [htext]
      refine .bind (.atPunct (starts_comma _).opens ")") ?_
      rintro _ rfl
      rw [decide_eq_false (by decide)]
      refine .bind (.expectPunct (starts_comma _) hopens) fun _ _ => .bind (.atPunct hopens ")") ?_
      rintro _ rfl
      rw [decide_eq_false fun heq => (startsPlain_facts hk₁).1 (by simp [heq, outsiders])]
      exact tries_nextParameter hlead hb hd isGap_space
        (ih fun z hz => hitems z (List.mem_cons_of_mem _ hz))

/-- The items of a list, tried as parameters: the attempt ends with the list. -/
theorem tries_parameters {items : List (List Char)}
    (hitems : ∀ y ∈ x :: items, Leads y ∧ y.length < b ∧ y.length ≤ d)
    (hgap : ∀ c ∈ gap, isGap c = true) {rest : List Char} (hrest : Opens rest k) :
    Tries (parametersRule (rules b d)) .module
      (gap ++ ('(' :: (itemList (x :: items) ++ ')' :: rest))) fun s => s.Stands .module rest := by
  obtain ⟨hlead, hb, hd⟩ := hitems x List.mem_cons_self
  obtain ⟨k', -, hbehind⟩ := behind_furtherItems items rest
  obtain ⟨k₁, behind, hscans, hk₁⟩ := (hlead _ k' hbehind).first
  have htext : itemList (x :: items) ++ ')' :: rest
      = [] ++ (x ++ (furtherItems items ++ ')' :: rest)) := by
    simp [itemList]
  have hopen := starts_open hgap (itemList (x :: items) ++ ')' :: rest)
  have hopens : Opens (itemList (x :: items) ++ ')' :: rest) k₁ :=
    htext ▸ (hscans.starts [] (by simp)).opens
  have hlist : Tries (parameterList (rules b d) (rules b d).bound true false) .module
      (itemList (x :: items) ++ ')' :: rest) fun s => s.Stands .module (')' :: rest) := by
    obtain ⟨b, rfl⟩ := Nat.exists_eq_add_of_lt (Nat.lt_of_le_of_lt (Nat.zero_le _) hb)
    rw [bound_rules]
    refine .bind (.atPunct hopens ")") ?_
    rintro _ rfl
    rw [decide_eq_false fun heq => (startsPlain_facts hk₁).1 (by simp [heq, outsiders]), htext]
    exact tries_nextParameter hlead hb hd (by simp) fun n =>
      tries_furtherParameters (fun z hz => hitems z (List.mem_cons_of_mem _ hz)) n rest
  refine .start_bind fun begin => .bind (.expectPunct hopen hopens) fun _ _ => ?_
  refine .after hlist fun items s hs t s' hrun => ?_
  have hclose : Tries (do expectPunct ")"; node .parameters begin items) .module (')' :: rest)
      fun s => s.Stands .module rest :=
    .bind (.expectPunct (starts_close rest) hrest) fun _ _ => (Reads.node _ _ _).tries
  exact hclose s hs.1 hs.2 t s' hrun

/-- A word that opens an expression as a name could be a parameter. -/
theorem not_valueWord_of_opensName {w : String} (hw : opensName w = true) :
    (!isBindingWord w && w != "this") = false := by
  by_cases hthis : w = "this"
  · rw [hthis]
    decide
  · have hplain : w ∉ specialWords := by simpa [opensName, hthis] using hw
    simp only [specialWords, List.mem_append, not_or] at hplain
    simp [isBindingWord, hplain.1]

/-- The first tokens of the items do not look like parameters for sure. -/
theorem reads_guessArrow {items : List (List Char)} (hx : Leads x)
    (hgap : ∀ c ∈ gap, isGap c = true) (rest : List Char) :
    Reads guessArrow .module (gap ++ ('(' :: (itemList (x :: items) ++ ')' :: rest)))
      (gap ++ ('(' :: (itemList (x :: items) ++ ')' :: rest))) (· ≠ .yes) := by
  obtain ⟨k, hk, hbehind⟩ := behind_furtherItems items rest
  have hlead := hx _ k hbehind
  have htext : itemList (x :: items) ++ ')' :: rest = x ++ (furtherItems items ++ ')' :: rest) := by
    simp [itemList]
  have hopen := starts_open hgap (itemList (x :: items) ++ ')' :: rest)
  have hstart {k₁ : TokenKind} {behind : List Char}
      (h : Scans (x ++ (furtherItems items ++ ')' :: rest)) k₁ behind) :
      Starts (itemList (x :: items) ++ ')' :: rest) k₁ behind := htext ▸ h.starts [] (by simp)
  -- The look ahead may stop after one, two or three tokens.
  have hlook (last : List Char) {f : TokenKind → Parser ArrowGuess} {k₁ : TokenKind}
      {behind : List Char} (h : Scans (x ++ (furtherItems items ++ ')' :: rest)) k₁ behind)
      (hf : Reads (f k₁) .module (itemList (x :: items) ++ ')' :: rest) last (· ≠ .yes)) :
      Reads (lookahead do
        expectPunct "("
        f (← kind)) .module (gap ++ ('(' :: (itemList (x :: items) ++ ')' :: rest)))
          (gap ++ ('(' :: (itemList (x :: items) ++ ')' :: rest))) (· ≠ .yes) :=
    .lookahead (.bind (.expectPunct hopen (hstart h).opens) fun _ _ =>
      .kind_bind (hstart h).opens hf)
  cases hlead with
  | plain hlead =>
    cases hlead with
    | @fixed behind k₁ h hfixed =>
      refine hlook (itemList (x :: items) ++ ')' :: rest) h ?_
      cases k₁ with
      | word w =>
        have hvalue : (!isBindingWord w && w != "this") = true := by
          have hall : ∀ w ∈ ["null", "true", "false"] ++ ["typeof", "void", "delete"],
              (!isBindingWord w && w != "this") = true := by decide
          exact hall w (by simpa [startsFixed, or_assoc] using hfixed)
        dsimp only
        rw [hvalue]
        exact .pure (by decide)
      | punct p =>
        have hp : p ∈ "(" :: ["+", "-", "!", "~", "++", "--"] := by simpa [startsFixed] using hfixed
        simp only [List.mem_cons, List.not_mem_nil, or_false] at hp
        rcases hp with rfl | rfl | rfl | rfl | rfl | rfl | rfl <;> exact .pure (by decide)
      | string v => exact .pure (by decide)
      | number v => exact .pure (by decide)
      | _ => cases hfixed
    | name hw h =>
      refine hlook (furtherItems items ++ ')' :: rest) h ?_
      dsimp only
      rw [not_valueWord_of_opensName hw]
      refine .bind (.advance (hstart h) hbehind.opens) fun _ _ => .kind_bind hbehind.opens ?_
      simp only [List.mem_cons, List.not_mem_nil, or_false] at hk
      rcases hk with rfl | rfl <;> exact .pure (by decide)
    | @inside behind _ _ hw h hopens hk₂ =>
      refine hlook behind h ?_
      dsimp only
      rw [not_valueWord_of_opensName hw]
      refine .bind (.advance (hstart h) hopens) fun _ _ => .kind_bind hopens ?_
      split <;> first | exact absurd hk₂ (by decide) | exact .pure (by decide)
    | @test _ tail _ _ hw h hquestion htail hk₃ =>
      refine hlook tail h ?_
      dsimp only
      rw [not_valueWord_of_opensName hw]
      refine .bind (.advance (hstart h) hquestion.opens) fun _ _ => .kind_bind hquestion.opens ?_
      refine .bind (.advance hquestion htail) fun _ _ => .kind_bind htail ?_
      split <;> first | exact absurd hk₃ (by decide) | exact .pure (by decide)
  | @assign value _ _ hw h hvalueOpens hvalue hlength =>
    have hequals : Opens (spaced "=" ++ (value ++ (furtherItems items ++ ')' :: rest)))
        (.punct "=") := (starts_equals _).opens
    refine hlook (spaced "=" ++ (value ++ (furtherItems items ++ ')' :: rest))) h ?_
    dsimp only
    rw [not_valueWord_of_opensName hw]
    refine .bind (.advance (hstart h) hequals) fun _ _ => .kind_bind hequals ?_
    exact .pure (by decide)

/-- An arrow whose parameters are tried, unless they were before. -/
def arrowAttempt (r : Rules) ( begin : Nat) (attempt : Parser (Tree × Bool)) :
    Parser (Option Tree) := do
  let s ← get
  if s.notArrows.contains begin then return none
  match attempt s with
  | .ok (ps, true) s' =>
    set s'
    return some (← arrowRest r begin false ps)
  | .ok (_, false) s' =>
    set { s with notArrows := begin :: s'.notArrows }
    return none
  | .error _ s' =>
    set { s with notArrows := begin :: s'.notArrows }
    return none

/-- Of an attempt that finds no arrow, only the note is kept that it was made. -/
theorem reads_arrowAttempt {r : Rules} { begin : Nat} {attempt : Parser (Tree × Bool)} {c : Context}
    (h : ∀ s : State, s.At text → s.context = c → ∀ ps s', attempt s ≠ .ok (ps, true) s') :
    Reads (arrowAttempt r begin attempt) c text text (· = none) := by
  intro s hs hc
  unfold arrowAttempt
  rw [run_bind (show (get : Parser State) s = .ok s s from rfl)]
  dsimp only
  split
  · exact ⟨none, s, rfl, hs.reaches_self, rfl⟩
  · cases hrun : attempt s with
    | ok found s' =>
      obtain ⟨ps, found⟩ := found
      cases found with
      | true => exact absurd hrun (h s hs hc ps s')
      | false => exact ⟨none, _, rfl, ⟨hs, rfl, rfl, rfl⟩, rfl⟩
    | error _ s' => exact ⟨none, _, rfl, ⟨hs, rfl, rfl, rfl⟩, rfl⟩

/-- Parentheses around a list of plain expressions hold no parameters. -/
theorem reads_parenArrow {items : List (List Char)}
    (hitems : ∀ y ∈ x :: items, Leads y ∧ y.length < b ∧ y.length ≤ d)
    (hgap : ∀ c ∈ gap, isGap c = true) {rest : List Char} (hrest : Opens rest k)
    (hk : k ≠ .punct "=>") :
    Reads (parenArrow? (rules b d)) .module (gap ++ ('(' :: (itemList (x :: items) ++ ')' :: rest)))
      (gap ++ ('(' :: (itemList (x :: items) ++ ')' :: rest))) (· = none) := by
  have hopen := starts_open hgap (itemList (x :: items) ++ ')' :: rest)
  have hattempt (s : State) (hs : s.At (gap ++ ('(' :: (itemList (x :: items) ++ ')' :: rest))))
      (hc : s.context = .module) (ps : Tree) (s' : State) : (do
        let ps ← arrowParameters (rules b d) false
        return (ps, ← atPunct "=>")) s ≠ .ok (ps, true) s' := by
    intro hrun
    obtain ⟨ps', s₁, hparameters, hlast⟩ := bind_eq_ok hrun
    obtain ⟨hs₁, hc₁⟩ := Tries.within (tries_parameters hitems hgap hrest) s hs hc _ _ hparameters
    obtain ⟨found, s₂, hfound, -, hnone⟩ := Reads.atPunct (c := .module) hrest "=>" s₁ hs₁ hc₁
    rw [run_bind hfound, hnone, decide_eq_false hk] at hlast
    cases hlast
  refine .start_bind fun begin => .bind (.atWord hopen.opens "async") ?_
  rintro _ rfl
  rw [decide_eq_false (by decide)]
  refine .bind (.atPunct hopen.opens "(") ?_
  rintro _ rfl
  rw [decide_eq_true rfl]
  refine .bind (reads_guessArrow (hitems x List.mem_cons_self).1 hgap rest) fun guess hguess => ?_
  cases guess with
  | yes => exact absurd rfl hguess
  | no => exact .pure rfl
  | maybe => exact reads_arrowAttempt hattempt

end

end Reactive.Script.Parser
