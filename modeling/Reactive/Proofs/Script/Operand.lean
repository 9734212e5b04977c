/-
  Operands that compiled components are written with.

  Names, string literals, members, calls of methods and arrays. A text fits as an operand if it is
  read as one wherever it stands before what may follow an operand; how deep the rules reach and how
  long a list may be is bounded by its length. The items of a list are expressions, so what it means
  to fit as an expression is said here as well.
-/
import Reactive.Proofs.Script.Reading

namespace Reactive.Script

/-- Inside the body of a function that is neither asynchronous nor a generator. -/
def Context.body : Context := ⟨true, false, false, true, false⟩

namespace Parser

/-! ## Where operands start and end -/

/-- Words with a meaning of their own at the start of an expression or a statement. -/
def specialWords : List String :=
  reservedWords ++ ["as", "async", "await", "let", "satisfies", "using", "yield"]

/-- A name that is only a variable. -/
structure IsVariable (w : String) : Prop where
  name : IsName w
  plain : w ∉ specialWords

instance (w : String) : Decidable (IsVariable w) :=
  decidable_of_iff (IsName w ∧ w ∉ specialWords) ⟨fun h => ⟨h.1, h.2⟩, fun h => ⟨h.name, h.plain⟩⟩

/-- The token starts an operand and nothing else. -/
def startsOperand : TokenKind → Bool
  | .word w => !specialWords.contains w
  | .string _ => true
  | .punct p => p == "\x7b" || p == "["
  | _ => false

theorem IsVariable.startsOperand {w : String} (hw : IsVariable w) :
    startsOperand (.word w) = true := by
  simpa [Parser.startsOperand] using hw.plain

/-- What stands behind an expression without commas. -/
inductive Ending : List Char → Prop where
  | close (rest : List Char) : Ending (')' :: rest)
  | semicolon (rest : List Char) : Ending (';' :: rest)
  | comma (rest : List Char) : Ending (',' :: rest)
  | bracket (rest : List Char) : Ending (']' :: rest)

/-- What stands behind an operand. -/
inductive OperandEnding : List Char → Prop where
  | close (rest : List Char) : OperandEnding (')' :: rest)
  | semicolon (rest : List Char) : OperandEnding (';' :: rest)
  | comma (rest : List Char) : OperandEnding (',' :: rest)
  | bracket (rest : List Char) : OperandEnding (']' :: rest)
  | equals (rest : List Char) : OperandEnding (' ' :: '=' :: ' ' :: rest)
  | either (rest : List Char) : OperandEnding (' ' :: '|' :: '|' :: ' ' :: rest)

/-- The tokens of these endings. -/
def endings : List TokenKind := [.punct ")", .punct ";", .punct ",", .punct "]"]

/-- The tokens of the endings of an operand. -/
def operandEndings : List TokenKind := endings ++ [.punct "=", .punct "||"]

theorem starts_close (rest : List Char) : Starts (')' :: rest) (.punct ")") rest :=
  (scans_separator (p := ")") (by decide) rest).starts [] (by simp)

theorem starts_semicolon (rest : List Char) : Starts (';' :: rest) (.punct ";") rest :=
  (scans_separator (p := ";") (by decide) rest).starts [] (by simp)

theorem starts_comma (rest : List Char) : Starts (',' :: rest) (.punct ",") rest :=
  (scans_separator (p := ",") (by decide) rest).starts [] (by simp)

theorem starts_bracket (rest : List Char) : Starts (']' :: rest) (.punct "]") rest :=
  (scans_separator (p := "]") (by decide) rest).starts [] (by simp)

theorem starts_equals (rest : List Char) :
    Starts (' ' :: '=' :: ' ' :: rest) (.punct "=") (' ' :: rest) :=
  Scans.starts ⟨rfl, fun offset => ⟨⟨' ' :: rest, offset + 1⟩, rfl, rfl⟩⟩ [' '] isGap_space

theorem starts_either (rest : List Char) :
    Starts (' ' :: '|' :: '|' :: ' ' :: rest) (.punct "||") (' ' :: rest) :=
  Scans.starts ⟨rfl, fun offset => ⟨⟨' ' :: rest, offset + 2⟩, rfl, rfl⟩⟩ [' '] isGap_space

theorem Ending.operandEnding {rest : List Char} (h : Ending rest) : OperandEnding rest := by
  cases h with
  | close => exact .close _
  | semicolon => exact .semicolon _
  | comma => exact .comma _
  | bracket => exact .bracket _

theorem Ending.opens {rest : List Char} (h : Ending rest) : ∃ k ∈ endings, Opens rest k := by
  cases h with
  | close => exact ⟨_, by decide, (starts_close _).opens⟩
  | semicolon => exact ⟨_, by decide, (starts_semicolon _).opens⟩
  | comma => exact ⟨_, by decide, (starts_comma _).opens⟩
  | bracket => exact ⟨_, by decide, (starts_bracket _).opens⟩

theorem OperandEnding.opens {rest : List Char} (h : OperandEnding rest) :
    ∃ k ∈ operandEndings, Opens rest k := by
  cases h with
  | close => exact ⟨_, by decide, (starts_close _).opens⟩
  | semicolon => exact ⟨_, by decide, (starts_semicolon _).opens⟩
  | comma => exact ⟨_, by decide, (starts_comma _).opens⟩
  | bracket => exact ⟨_, by decide, (starts_bracket _).opens⟩
  | equals => exact ⟨_, by decide, (starts_equals _).opens⟩
  | either => exact ⟨_, by decide, (starts_either _).opens⟩

theorem OperandEnding.endsName {rest : List Char} (h : OperandEnding rest) : EndsName rest := by
  cases h <;> rintro c ⟨⟩ <;> decide

section

variable {r : Rules} {text middle rest : List Char} {k k' : TokenKind} {Q : Tree → Prop}

/-! ## Operands -/

theorem reads_identifier {w : String} (hw : IsVariable w) (h : Starts text (.word w) rest)
    (hrest : Opens rest k') (c : Context) :
    Reads identifierRule c text rest fun t => ∃ span, t = .node (.identifier w) span [] := by
  refine .bind (.token h.opens) fun t ht => ?_
  rw [ht]
  refine .bind .context fun c' _ => ?_
  -- No word with a meaning of its own is left, wherever the name stands.
  have hreference : isReferenceWord c' w = true := by
    have hplain := hw.plain
    simp only [specialWords, List.mem_append, not_or, List.mem_cons] at hplain
    simp [isReferenceWord, isIdentifierWord, hplain]
  rw [hreference, if_pos rfl]
  exact .bind (.advance h hrest) fun _ _ => .pure ⟨_, rfl⟩

theorem reads_primary_word {w : String} (hw : IsVariable w) (h : Starts text (.word w) rest)
    (hrest : Opens rest k') (c : Context) :
    Reads (primaryRule r) c text rest fun t => ∃ span, t = .node (.identifier w) span [] := by
  have hplain : ∀ v ∈ specialWords, w ≠ v := fun v hv heq => hw.plain (heq ▸ hv)
  simp only [specialWords, reservedWords, List.cons_append, List.forall_mem_cons] at hplain
  refine .start_bind fun _ => .kind_bind h.opens ?_
  dsimp only
  split <;> first | exact reads_identifier hw h hrest c | simp_all

theorem reads_primary_string {points : List Nat} (h : Starts text (.string points) rest)
    (hrest : Opens rest k') (c : Context) :
    Reads (primaryRule r) c text rest fun t => ∃ span, t = .node (.string points) span [] :=
  .start_bind fun _ => .kind_bind h.opens <|
    .bind (.token h.opens) fun _ _ => .bind (.advance h hrest) fun _ _ => .pure ⟨_, rfl⟩

theorem reads_anyWord {w : String} (h : Starts text (.word w) rest) (hrest : Opens rest k')
    (c : Context) :
    Reads anyWord c text rest fun t => ∃ span, t = .node (.word w) span [] := by
  refine .bind (.token h.opens) fun t ht => ?_
  rw [ht]
  exact .bind (.advance h hrest) fun _ _ => .pure ⟨_, rfl⟩

/-! ### Member steps and calls -/

/-- No member step follows. -/
theorem reads_memberSteps_end (hrest : Opens rest k') (hk : k' ∈ .punct "(" :: operandEndings)
    ( begin bound : Nat) (object : Tree) (optional : Bool) :
    Reads (memberSteps r begin (bound + 1) object optional) .body rest rest
      (· = (object, optional)) := by
  refine .kind_bind hrest ?_
  simp only [operandEndings, endings, List.cons_append, List.nil_append, List.mem_cons,
    List.not_mem_nil, or_false] at hk
  rcases hk with rfl | rfl | rfl | rfl | rfl | rfl | rfl <;> exact .pure rfl

/-- A member step with a dot, and no further one. -/
theorem reads_memberSteps_dot {m : String} (h : Starts text (.punct ".") middle)
    (hm : Starts middle (.word m) rest) (hrest : Opens rest k')
    (hk : k' ∈ .punct "(" :: operandEndings) ( begin bound : Nat) (object : Tree)
    (optional : Bool) :
    Reads (memberSteps r begin (bound + 2) object optional) .body text rest
      fun x => ∃ span children, x = (.node (.member false) span children, optional) := by
  have hstep : Reads (memberStep object begin false) .body middle rest
      fun t => ∃ span children, t = .node (.member false) span children := by
    refine .kind_bind hm.opens (.bind (reads_anyWord hm hrest _) fun p _ => ?_)
    exact (Reads.node _ _ _).mono fun t ⟨span, ht⟩ => ⟨span, _, ht⟩
  refine .kind_bind h.opens (.bind (.advance h hm.opens) fun _ _ => .bind hstep ?_)
  rintro _ ⟨span, children, rfl⟩
  exact (reads_memberSteps_end hrest hk begin bound _ optional).mono
    fun x hx => ⟨span, children, hx⟩

end

/-! ## Items of a list -/

/-- Pieces of text, each behind a separator. -/
def led (sep : List Char) (pieces : List (List Char)) : List Char := pieces.flatMap (sep ++ ·)

/-- There are not more pieces than characters, and no piece is longer than all of them. -/
theorem length_pieces {f : List Char → List Char} (hf : ∀ x, x.length < (f x).length)
    (pieces : List (List Char)) :
    pieces.length ≤ (pieces.flatMap f).length
      ∧ ∀ x ∈ pieces, x.length ≤ (pieces.flatMap f).length := by
  induction pieces with
  | nil => simp
  | cons x pieces ih =>
    have hx := hf x
    rw [List.flatMap_cons, List.length_append, List.length_cons]
    refine ⟨by omega, List.forall_mem_cons.mpr ⟨by omega, fun y hy => ?_⟩⟩
    have hle := ih.2 y hy
    omega

theorem length_led (sep : List Char) (hsep : 1 ≤ sep.length) (pieces : List (List Char)) :
    pieces.length ≤ (led sep pieces).length
      ∧ ∀ x ∈ pieces, x.length ≤ (led sep pieces).length :=
  length_pieces (fun x => by rw [List.length_append]; omega) pieces

/-- The text is an expression without commas of its own, wherever it stands before the end of an
argument or a statement. -/
def AsExpression (e : List Char) : Prop :=
  ∀ b d gap rest, e.length ≤ b → e.length ≤ d → (∀ c ∈ gap, isGap c = true) → Ending rest →
    ∃ k, Opens (gap ++ (e ++ rest)) k ∧ k ∉ [.punct ")", .punct "]", .punct ",", .punct "..."]
      ∧ Reads (assignmentRule (rules b d)) .body (gap ++ (e ++ rest)) rest fun _ => True

section

variable {b d : Nat} {rest : List Char}

/-- The rule reads the text as an item of a list. -/
def AsItem (rule : Parser Tree) (a : List Char) : Prop :=
  ∀ gap rest, (∀ c ∈ gap, isGap c = true) → Ending rest →
    (∃ k, Opens (gap ++ (a ++ rest)) k ∧ k ∉ [.punct ")", .punct "]"])
    ∧ Reads rule .body (gap ++ (a ++ rest)) rest fun _ => True

/-- One argument of a call. -/
def argumentRule (r : Rules) : Parser Tree := do
  if ← atPunct "..." then spreadRule r else r.assignment

/-- One element of an array. -/
def elementRule (r : Rules) : Parser Tree := do
  if ← atPunct "," then return .absent
  else if ← atPunct "..." then spreadRule r
  else r.assignment

theorem AsExpression.asArgument {a : List Char} (ha : AsExpression a) (hb : a.length ≤ b)
    (hd : a.length ≤ d) : AsItem (argumentRule (rules b (d + 1))) a := by
  intro gap rest hgap hrest
  obtain ⟨k, hopens, hk, hreads⟩ := ha b d gap rest hb hd hgap hrest
  refine ⟨⟨k, hopens, fun hmem => hk (by simp_all)⟩, .bind (.atPunct hopens "...") ?_⟩
  rintro _ rfl
  rw [decide_eq_false (fun h => hk (by simp [h]))]
  exact hreads

theorem AsExpression.asElement {a : List Char} (ha : AsExpression a) (hb : a.length ≤ b)
    (hd : a.length ≤ d) : AsItem (elementRule (rules b (d + 1))) a := by
  intro gap rest hgap hrest
  obtain ⟨k, hopens, hk, -⟩ := ha b d gap rest hb hd hgap hrest
  obtain ⟨hitem, hreads⟩ := ha.asArgument hb hd gap rest hgap hrest
  refine ⟨hitem, .bind (.atPunct hopens ",") ?_⟩
  rintro _ rfl
  rw [decide_eq_false (fun h => hk (by simp [h]))]
  exact hreads

/-- What closes a list of items. -/
inductive Closer : Char → String → Prop where
  | paren : Closer ')' ")"
  | bracket : Closer ']' "]"

theorem Closer.starts {c : Char} {p : String} (h : Closer c p) (rest : List Char) :
    Starts (c :: rest) (.punct p) rest := by
  cases h with
  | paren => exact starts_close rest
  | bracket => exact starts_bracket rest

theorem Closer.ending {c : Char} {p : String} (h : Closer c p) (rest : List Char) :
    Ending (c :: rest) := by
  cases h with
  | paren => exact .close rest
  | bracket => exact .bracket rest

theorem Closer.not_mem {c : Char} {p : String} (h : Closer c p) {k : TokenKind}
    (hk : k ∉ [.punct ")", .punct "]"]) : k ≠ .punct p := by
  rintro rfl
  cases h <;> simp at hk

/-- The items of a list behind the first one. -/
def furtherItems (items : List (List Char)) : List Char := led [',', ' '] items

theorem ending_furtherItems {c : Char} {p : String} (hc : Closer c p) (items : List (List Char))
    (rest : List Char) : Ending (furtherItems items ++ c :: rest) := by
  cases items with
  | nil => exact hc.ending rest
  | cons a items => exact .comma _

theorem reads_furtherItems {rule : Parser Tree} {c : Char} {p : String} (hc : Closer c p)
    {items : List (List Char)} (hitems : ∀ a ∈ items, AsItem rule a) (n : Nat)
    (rest : List Char) :
    Reads (commaList p rule (items.length + n + 1) false) .body
      (furtherItems items ++ c :: rest) (c :: rest) fun _ => True := by
  -- Each item uses up one step of the bound, and the last step sees what closes the list.
  induction items with
  | nil =>
    rw [List.length_nil, Nat.zero_add]
    refine .bind (.atPunct (hc.starts rest).opens p) ?_
    rintro _ rfl
    rw [decide_eq_true rfl]
    exact .pure trivial
  | cons a items ih =>
    have htext : furtherItems (a :: items) ++ c :: rest
        = ',' :: ([' '] ++ (a ++ (furtherItems items ++ c :: rest))) := by
      simp [furtherItems, led]
    obtain ⟨⟨k, hopens, hk⟩, hreads⟩ := hitems a List.mem_cons_self [' '] _ isGap_space
      (ending_furtherItems hc items rest)
    rw [htext, List.length_cons, Nat.add_right_comm _ 1 n]
    refine .bind (.atPunct (starts_comma _).opens p) ?_
    rintro _ rfl
    rw [decide_eq_false (hc.not_mem (by decide))]
    refine .bind (.expectPunct (starts_comma _) hopens) fun _ _ => .bind (.atPunct hopens p) ?_
    rintro _ rfl
    rw [decide_eq_false (hc.not_mem hk)]
    refine .bind hreads fun _ _ => ?_
    exact .bind (ih fun x hx => hitems x (List.mem_cons_of_mem _ hx)) fun _ _ => .pure trivial

/-- The items of a list. -/
def itemList : List (List Char) → List Char
  | [] => []
  | a :: items => a ++ furtherItems items

/-- There are not more items than characters, the first one aside, and none is longer than all of
them. -/
theorem length_itemList (items : List (List Char)) :
    items.length ≤ (itemList items).length + 1
      ∧ ∀ a ∈ items, a.length ≤ (itemList items).length := by
  cases items with
  | nil => simp
  | cons x items =>
    obtain ⟨hcount, hlengths⟩ := length_led [',', ' '] (by simp) items
    rw [itemList, furtherItems, List.length_append, List.length_cons]
    refine ⟨by omega, List.forall_mem_cons.mpr ⟨by omega, fun a ha => ?_⟩⟩
    have hle := hlengths a ha
    omega

/-- A list of items, up to what closes it. -/
theorem reads_itemList {rule : Parser Tree} {c : Char} {p : String} (hc : Closer c p)
    {items : List (List Char)} (hitems : ∀ a ∈ items, AsItem rule a) (n : Nat)
    (rest : List Char) :
    (∃ k, Opens (itemList items ++ c :: rest) k)
    ∧ Reads (commaList p rule (items.length + n + 1) true) .body
      (itemList items ++ c :: rest) (c :: rest) fun _ => True := by
  cases items with
  | nil =>
    rw [List.length_nil, Nat.zero_add]
    refine ⟨⟨_, (hc.starts rest).opens⟩, .bind (.atPunct (hc.starts rest).opens p) ?_⟩
    rintro _ rfl
    rw [decide_eq_true rfl]
    exact .pure trivial
  | cons a items =>
    have htext : itemList (a :: items) ++ c :: rest
        = [] ++ (a ++ (furtherItems items ++ c :: rest)) := by
      simp [itemList]
    obtain ⟨⟨k, hopens, hk⟩, hreads⟩ := hitems a List.mem_cons_self [] _ (by simp)
      (ending_furtherItems hc items rest)
    rw [htext, List.length_cons, Nat.add_right_comm _ 1 n]
    refine ⟨⟨k, hopens⟩, .bind (.atPunct hopens p) ?_⟩
    rintro _ rfl
    rw [decide_eq_false (hc.not_mem hk)]
    refine .bind (.atPunct hopens p) fun _ _ => .bind hreads fun _ _ => ?_
    exact .bind (reads_furtherItems hc (fun x hx => hitems x (List.mem_cons_of_mem _ hx)) n rest)
      fun _ _ => .pure trivial

/-! ### Texts that fit -/

@[simp] theorem bound_rules (b d : Nat) : (rules b d).bound = b := by
  cases d <;> rfl

/-- No call and no member step follows. -/
theorem reads_callSteps_end (hb : 1 ≤ b) (hrest : OperandEnding rest) ( begin bound : Nat)
    (callee : Tree) :
    Reads (callSteps (rules b d) begin (bound + 1) callee false) .body rest rest
      (· = (callee, false)) := by
  obtain ⟨k, hk, hopens⟩ := hrest.opens
  have hne : k ≠ .punct "?." ∧ k ≠ .punct "(" := by
    constructor <;> rintro rfl <;> exact absurd hk (by decide)
  obtain ⟨b, rfl⟩ := Nat.exists_eq_add_of_le' hb
  have hmember := reads_memberSteps_end (r := rules (b + 1) d) hopens (List.mem_cons_of_mem _ hk)
    begin b callee false
  rw [callSteps, bound_rules]
  refine .bind hmember ?_
  rintro _ rfl
  refine .bind (.eatPunct_other hopens hne.1) ?_
  rintro _ rfl
  refine .bind (.eatPunct_other hopens hne.2) ?_
  rintro _ rfl
  exact .pure rfl

/-- One call, and nothing behind it. -/
theorem reads_callSteps_call {args : List (List Char)}
    (hargs : ∀ a ∈ args, AsExpression a ∧ a.length ≤ b ∧ a.length ≤ d) (hb : args.length < b)
    (hrest : OperandEnding rest) ( begin bound : Nat) (callee : Tree) :
    Reads (callSteps (rules b (d + 1)) begin (bound + 2) callee false) .body
      ('(' :: (itemList args ++ ')' :: rest)) rest
      fun x => ∃ span children, x = (.node (.call false false) span children, false) := by
  have hopen := (scans_separator (p := "(") (by decide) (itemList args ++ ')' :: rest)).starts
    [] (by simp)
  obtain ⟨k', -, hafter⟩ := hrest.opens
  obtain ⟨n, rfl⟩ := Nat.exists_eq_add_of_lt hb
  obtain ⟨⟨k, hinner⟩, hitems⟩ := reads_itemList .paren (fun a ha =>
    (hargs a ha).1.asArgument (hargs a ha).2.1 (hargs a ha).2.2) n rest
  -- The parenthesis ends the member steps; it is read as a call, and then nothing follows.
  have hmember := reads_memberSteps_end (r := rules (args.length + n + 1) (d + 1)) hopen.opens
    (by simp) begin (args.length + n) callee false
  rw [callSteps, bound_rules]
  refine .bind hmember ?_
  rintro _ rfl
  refine .bind (.eatPunct_other hopen.opens (by decide)) ?_
  rintro _ rfl
  refine .bind (.eatPunct hopen hinner) ?_
  rintro _ rfl
  refine .bind (.within hitems) ?_
  rintro ⟨items, trailing⟩ -
  refine .bind (.expectPunct (starts_close rest) hafter) fun _ _ => ?_
  refine .bind (.node _ _ _) ?_
  rintro _ ⟨span, rfl⟩
  exact (reads_callSteps_end (by omega) hrest begin bound _).mono
    fun x hx => ⟨span, _, hx⟩

/-- The text is an operand, wherever it stands. -/
structure AsOperand (e : List Char) (Q : Tree → Prop) : Prop where
  length_pos : 1 ≤ e.length
  reads : ∀ b d gap rest, e.length ≤ b → e.length ≤ d → (∀ c ∈ gap, isGap c = true) →
    OperandEnding rest →
    ∃ k behind, Starts (gap ++ (e ++ rest)) k behind ∧ startsOperand k = true
      ∧ Reads (operandRule (rules b d)) .body (gap ++ (e ++ rest)) rest Q

theorem AsOperand.mono {e : List Char} {Q Q' : Tree → Prop} (h : AsOperand e Q)
    (hQ : ∀ t, Q t → Q' t) : AsOperand e Q' := by
  refine ⟨h.length_pos, ?_⟩
  intro b d gap rest hb hd hgap hrest
  obtain ⟨k, behind, hstarts, hk, hreads⟩ := h.reads b d gap rest hb hd hgap hrest
  exact ⟨k, behind, hstarts, hk, hreads.mono hQ⟩

/-- A member expression that no call follows. -/
theorem reads_operand {text : List Char} {Q : Tree → Prop} (hb : 1 ≤ b)
    (h : Reads (memberRule (rules b d)) .body text rest fun x => Q x.1 ∧ x.2 = false)
    (hrest : OperandEnding rest) : Reads (operandRule (rules b d)) .body text rest Q := by
  obtain ⟨b, rfl⟩ := Nat.exists_eq_add_of_le' hb
  refine .start_bind fun begin => .bind h ?_
  rintro ⟨t, optional⟩ ⟨ht, rfl⟩
  rw [bound_rules]
  refine .bind (reads_callSteps_end hb hrest begin b t) ?_
  rintro _ rfl
  exact .pure ht

/-- A primary expression that nothing belongs to. -/
theorem reads_operand_of_primary {text : List Char} {Q : Tree → Prop} (hb : 1 ≤ b)
    (h : Reads (primaryRule (rules b d)) .body text rest Q) (hrest : OperandEnding rest) :
    Reads (operandRule (rules b d)) .body text rest Q := by
  obtain ⟨k, hk, hopens⟩ := hrest.opens
  obtain ⟨b, rfl⟩ := Nat.exists_eq_add_of_le' hb
  refine reads_operand hb (.start_bind fun begin => .bind h fun t ht => ?_) hrest
  rw [bound_rules]
  refine (reads_memberSteps_end hopens (List.mem_cons_of_mem _ hk) begin b t false).mono ?_
  rintro _ rfl
  exact ⟨ht, rfl⟩

theorem IsVariable.length_pos {w : String} (hw : IsVariable w) : 1 ≤ w.toList.length := by
  obtain ⟨c, cs, hcs, -⟩ := hw.name.exists_cons
  rw [hcs]
  exact Nat.succ_le_succ (Nat.zero_le _)

theorem asOperand_variable {w : String} (hw : IsVariable w) :
    AsOperand w.toList fun t => ∃ span, t = .node (.identifier w) span [] := by
  refine ⟨hw.length_pos, ?_⟩
  intro b d gap rest hb hd hgap hrest
  have hstarts := (scans_name hw.name _ hrest.endsName).starts _ hgap
  obtain ⟨k, -, hopens⟩ := hrest.opens
  exact ⟨_, _, hstarts, hw.startsOperand,
    reads_operand_of_primary (Nat.le_trans hw.length_pos hb)
      (reads_primary_word hw hstarts hopens _) hrest⟩

theorem asOperand_quote (s : String) :
    AsOperand (Json.quote s).toList fun t => ∃ points span, t = .node (.string points) span [] := by
  have hlength : 1 ≤ (Json.quote s).toList.length := by
    simp [Json.quote, Json.quoteChars]
  refine ⟨hlength, ?_⟩
  intro b d gap rest hb hd hgap hrest
  obtain ⟨points, hscans⟩ := scans_quote s rest
  have hstarts := hscans.starts _ hgap
  obtain ⟨k, -, hopens⟩ := hrest.opens
  refine ⟨_, _, hstarts, rfl, (reads_operand_of_primary (Nat.le_trans hlength hb)
    (reads_primary_string hstarts hopens _) hrest).mono ?_⟩
  rintro t ⟨span, ht⟩
  exact ⟨points, span, ht⟩

/-- A variable with one member step. -/
theorem reads_member {o m : String} {gap : List Char} {k : TokenKind} (ho : IsVariable o)
    (hm : IsName m) (hb : 2 ≤ b) (hgap : ∀ c ∈ gap, isGap c = true) (hrest : EndsName rest)
    (hopens : Opens rest k) (hk : k ∈ .punct "(" :: operandEndings) :
    Starts (gap ++ (o.toList ++ '.' :: (m.toList ++ rest))) (.word o) ('.' :: (m.toList ++ rest))
      ∧ Reads (memberRule (rules b d)) .body (gap ++ (o.toList ++ '.' :: (m.toList ++ rest))) rest
        fun x => (∃ span children, x.1 = .node (.member false) span children) ∧ x.2 = false := by
  have hobject := (scans_name ho.name ('.' :: (m.toList ++ rest))
    (by rintro _ ⟨⟩; decide)).starts _ hgap
  have hdot := (scans_dot hm rest).starts [] (by simp)
  have hmember := (scans_name hm _ hrest).starts [] (by simp)
  obtain ⟨b, rfl⟩ := Nat.exists_eq_add_of_le' hb
  refine ⟨hobject, .start_bind fun begin =>
    .bind (reads_primary_word ho hobject hdot.opens _) ?_⟩
  rintro t -
  rw [bound_rules]
  refine (reads_memberSteps_dot hdot hmember hopens hk begin b t false).mono ?_
  rintro _ ⟨span, children, rfl⟩
  exact ⟨⟨span, children, rfl⟩, rfl⟩

theorem asOperand_member {o m : String} (ho : IsVariable o) (hm : IsName m) :
    AsOperand (o.toList ++ '.' :: m.toList)
      fun t => ∃ span children, t = .node (.member false) span children := by
  refine ⟨Nat.le_trans ho.length_pos (by simp), ?_⟩
  intro b d gap rest hb hd hgap hrest
  obtain ⟨k, hk, hopens⟩ := hrest.opens
  have hlength := ho.length_pos
  simp only [List.length_append, List.length_cons] at hb
  obtain ⟨hstarts, hreads⟩ := reads_member (d := d) ho hm (b := b) (by omega) hgap hrest.endsName
    hopens (List.mem_cons_of_mem _ hk)
  rw [List.append_assoc, List.cons_append]
  exact ⟨_, _, hstarts, ho.startsOperand, reads_operand (by omega) hreads hrest⟩

/-- A call of a method. -/
def callOf (o m : String) (args : List (List Char)) : List Char :=
  o.toList ++ '.' :: (m.toList ++ '(' :: (itemList args ++ [')']))

theorem asOperand_call {o m : String} (ho : IsVariable o) (hm : IsName m)
    (args : List (List Char)) (hargs : ∀ a ∈ args, AsExpression a) :
    AsOperand (callOf o m args)
      fun t => ∃ span children, t = .node (.call false false) span children := by
  refine ⟨Nat.le_trans ho.length_pos (by simp [callOf]), ?_⟩
  intro b d gap rest hb hd hgap hrest
  have htext : gap ++ (callOf o m args ++ rest) = gap ++ (o.toList ++ '.' :: (m.toList
      ++ '(' :: (itemList args ++ ')' :: rest))) := by
    simp [callOf]
  have hlength : (callOf o m args).length
      = o.toList.length + m.toList.length + (itemList args).length + 3 := by
    simp [callOf]
    omega
  obtain ⟨hcount, hlengths⟩ := length_itemList args
  have hopen := (scans_separator (p := "(") (by decide) (itemList args ++ ')' :: rest)).starts
    [] (by simp)
  obtain ⟨d, rfl⟩ := Nat.exists_eq_add_of_le' (show 1 ≤ d by omega)
  obtain ⟨b, rfl⟩ := Nat.exists_eq_add_of_le' (show 2 ≤ b by omega)
  obtain ⟨hstarts, hmember⟩ := reads_member (d := d + 1) ho hm (b := b + 2) (by omega) hgap
    (by rintro _ ⟨⟩; decide) hopen.opens List.mem_cons_self
  rw [htext]
  refine ⟨_, _, hstarts, ho.startsOperand, .start_bind fun begin => .bind hmember ?_⟩
  rintro ⟨callee, optional⟩ ⟨-, rfl⟩
  rw [bound_rules]
  refine .bind (reads_callSteps_call (b := b + 2) (fun a ha => ?_) (by omega) hrest begin b
    callee) ?_
  · have hle := hlengths a ha
    exact ⟨hargs a ha, by omega, by omega⟩
  · rintro _ ⟨span, children, rfl⟩
    exact .pure ⟨span, children, rfl⟩

theorem reads_noteTrailing {c : Context} {text : List Char} ( begin : Nat) (trailing : Bool) :
    Reads (noteTrailing begin trailing) c text text fun _ => True := fun s hs _ => by
  cases trailing with
  | true => exact ⟨(), _, rfl, ⟨hs, rfl, rfl, rfl⟩, trivial⟩
  | false => exact ⟨(), s, rfl, hs.reaches_self, trivial⟩

/-- An array literal. -/
def arrayOf (elements : List (List Char)) : List Char := '[' :: (itemList elements ++ [']'])

theorem asOperand_array {elements : List (List Char)} (helements : ∀ e ∈ elements, AsExpression e) :
    AsOperand (arrayOf elements) fun _ => True := by
  refine ⟨by simp [arrayOf], ?_⟩
  intro b d gap rest hb hd hgap hrest
  have htext : gap ++ (arrayOf elements ++ rest)
      = gap ++ ("[".toList ++ (itemList elements ++ ']' :: rest)) := by
    simp [arrayOf]
  have hlength : (arrayOf elements).length = (itemList elements).length + 2 := by
    simp [arrayOf]
  obtain ⟨hcount, hlengths⟩ := length_itemList elements
  have hopen := (scans_separator (p := "[") (by decide)
    (itemList elements ++ ']' :: rest)).starts _ hgap
  obtain ⟨k, -, hafter⟩ := hrest.opens
  obtain ⟨d, rfl⟩ := Nat.exists_eq_add_of_le' (show 1 ≤ d by omega)
  -- One level of the rules is used up by the brackets, and one step of the bound by each element.
  obtain ⟨n, rfl⟩ := Nat.exists_eq_add_of_lt (show elements.length < b by omega)
  obtain ⟨⟨k, hinner⟩, hitems⟩ := reads_itemList .bracket (fun e he =>
    have hle := hlengths e he
    (helements e he).asElement (b := elements.length + n + 1) (d := d) (by omega) (by omega)) n rest
  rw [htext]
  refine ⟨_, _, hopen, rfl, reads_operand_of_primary (by omega) ?_ hrest⟩
  refine .start_bind fun _ => .kind_bind hopen.opens (.start_bind fun begin => ?_)
  refine .bind (.expectPunct hopen hinner) fun _ _ => ?_
  rw [bound_rules]
  refine .bind (.within hitems) ?_
  rintro ⟨items, trailing⟩ -
  refine .bind (.expectPunct (starts_bracket rest) hafter) fun _ _ => ?_
  refine .bind (reads_noteTrailing begin trailing) fun _ _ => ?_
  exact (Reads.node _ _ _).mono fun _ _ => trivial

end

end Parser

end Reactive.Script
