/-
  Statements that compiled components are written with.

  A text fits as a statement if it is read as one before whatever may follow a statement on the
  next line. Texts of several statements are put together with what is read behind them: a list of
  statements fits if it can be read before every list that can.
-/
import Reactive.Proofs.Script.Expression

namespace Reactive.Script.Parser

/-! ## What follows a statement -/

/-- The next line goes on with something that is not part of the statement before. -/
structure NextLine (rest : List Char) : Prop where
  newline : rest.head? = some '\n'
  opens : ∃ k, Opens rest k ∧ k ∉ [.word "else", .word "catch", .word "finally"]

/-- The text is a statement, wherever a line may follow. -/
def AsStatement (place : Place) (e : List Char) : Prop :=
  ∀ b d gap rest, e.length ≤ b → e.length ≤ d → (∀ c ∈ gap, isGap c = true) → NextLine rest →
    (∃ k, Opens (gap ++ (e ++ rest)) k
      ∧ k ∉ [.punct "\x7d", .endOfInput, .word "else", .word "catch", .word "finally"])
    ∧ Reads (statementRule (rules b d) place) .body (gap ++ (e ++ rest)) rest fun _ => True

section

variable {b d : Nat} {r : Rules} {place : Place} {text middle rest : List Char} {k k' : TokenKind}
  {Q : Tree → Prop}

/-- An expression without commas is an expression. -/
theorem reads_expression (h : Reads (assignmentRule r) .body text rest Q) (hopens : Opens rest k')
    (hk' : k' ≠ .punct ",") : Reads (expressionRule r) .body text rest Q := by
  refine .start_bind fun begin => .within (.bind h fun e he => ?_)
  refine .bind (.atPunct hopens ",") ?_
  rintro _ rfl
  rw [decide_eq_false hk']
  exact .pure he

/-! ## Expression statements -/

/-- The hint before a statement that has none. -/
theorem reads_statement {c : Context} (hstarts : Starts text k middle)
    (h : Reads (plainStatement r place) c text rest Q) :
    Reads (statementRule r place) c text rest Q := by
  refine .bind (.plainToken hstarts) fun t ht => .bind h fun e he => .pure ?_
  rw [ht.2.2]
  exact he

theorem reads_expressionStatement
    (h : Reads (assignmentRule r) .body text (';' :: rest) fun _ => True) (hopens : Opens rest k') :
    Reads (expressionStatement r) .body text rest fun _ => True := by
  have hend ( begin : Nat) (e : Tree) :
      Reads (expressionEnd begin e) .body (';' :: rest) rest fun _ => True :=
    .bind (.endStatement (starts_semicolon rest) hopens) fun _ _ =>
      (Reads.node _ _ _).mono fun _ _ => trivial
  refine .start_bind fun begin =>
    .bind (reads_expression h (starts_semicolon rest).opens (by decide)) fun e _ => ?_
  split
  · refine .bind (.eatPunct_other (starts_semicolon rest).opens (by decide)) ?_
    rintro _ rfl
    exact hend begin _
  · exact hend begin _

/-- A statement that starts with a variable is an expression. -/
theorem reads_plainStatement_word {c : Context} {w : String} (hw : IsVariable w)
    (hopens : Opens text (.word w)) (h : Reads (expressionStatement r) c text rest Q) :
    Reads (plainStatement r place) c text rest Q := by
  refine .start_bind fun _ => .kind_bind hopens ?_
  dsimp only
  -- The other words of the match have a meaning of their own.
  split <;> first | exact absurd (by decide) hw.plain | exact h

/-- An expression that starts with a variable is a statement with a semicolon. -/
theorem asStatement_expression {w : String} {tail : List Char} (hw : IsVariable w)
    (htail : ∀ rest, EndsName (tail ++ ';' :: rest)) (h : AsExpression (w.toList ++ tail)) :
    AsStatement place (w.toList ++ tail ++ [';']) := by
  intro b d gap rest hb hd hgap hrest
  obtain ⟨k, hopens, -⟩ := hrest.opens
  have hstarts := (scans_name hw.name _ (htail rest)).starts _ hgap
  rw [List.length_append] at hb hd
  obtain ⟨-, -, -, hreads⟩ := h b d gap (';' :: rest) (by omega) (by omega) hgap (.semicolon rest)
  have htext : gap ++ (w.toList ++ tail ++ [';'] ++ rest)
      = gap ++ (w.toList ++ (tail ++ ';' :: rest)) := by
    simp
  have htext' : gap ++ (w.toList ++ tail ++ ';' :: rest)
      = gap ++ (w.toList ++ (tail ++ ';' :: rest)) := by
    simp
  rw [htext'] at hreads
  rw [htext]
  refine ⟨⟨_, hstarts.opens, ?_⟩, reads_statement hstarts
    (reads_plainStatement_word hw hstarts.opens (reads_expressionStatement hreads hopens))⟩
  have hplain := hw.plain
  simp only [specialWords, reservedWords, List.cons_append, List.mem_cons, not_or] at hplain
  simp [hplain]

/-! ## Declarations -/

/-- A name that can be declared everywhere but where `await` is an operator. -/
structure IsBinding (w : String) : Prop where
  name : IsName w
  binding : isBindingWord w = true

instance (w : String) : Decidable (IsBinding w) :=
  decidable_of_iff (IsName w ∧ isBindingWord w = true)
    ⟨fun h => ⟨h.1, h.2⟩, fun h => ⟨h.name, h.binding⟩⟩

theorem IsVariable.isBinding {w : String} (hw : IsVariable w) : IsBinding w := by
  refine ⟨hw.name, ?_⟩
  have hplain := hw.plain
  simp only [specialWords, List.mem_append, not_or] at hplain
  simpa [isBindingWord] using hplain.1

/-- A name that is declared; what the place makes of it is no flaw. -/
theorem reads_bindingName {c : Context} {w : String} (hw : isBindingWord w = true)
    (hc : ((w == "await" && c.allowAwait) || (w == "yield" && c.inGenerator)) = false)
    (hstarts : Starts text (.word w) rest) (hopens : Opens rest k') :
    Reads bindingName c text rest fun t => ∃ span, t = .node (.binding w) span [] := by
  refine .bind (.token hstarts.opens) fun t ht => ?_
  rw [ht]
  dsimp only
  rw [if_pos hw]
  have hcheck : Reads (checkName w) c text text fun _ => True := by
    refine .bind .context fun c' hc' => ?_
    rw [hc', hc]
    exact .flawIf_false
  exact .bind hcheck fun _ _ => .bind (.advance hstarts hopens) fun _ _ => .pure ⟨_, rfl⟩

/-- A pattern that is a name. -/
theorem reads_pattern {w : String} (hw : isBindingWord w = true)
    (hstarts : Starts text (.word w) rest) (hopens : Opens rest k') :
    Reads (patternRule r) .body text rest fun t => ∃ span, t = .node (.binding w) span [] :=
  .start_bind fun _ => .kind_bind hstarts.opens <|
    reads_bindingName hw (by simp [Context.body]) hstarts hopens

/-- One variable, with or without a value; nothing follows it in its declaration. -/
theorem reads_declarators (hb : 1 ≤ b)
    (h : Reads (declaratorRule r) .body text (';' :: rest) Q) :
    Reads (declarators r b) .body text (';' :: rest) fun ds => ∃ t, Q t ∧ ds = [t] := by
  obtain ⟨b, rfl⟩ := Nat.exists_eq_add_of_le' hb
  refine .bind h fun t ht => ?_
  refine .bind (.eatPunct_other (starts_semicolon rest).opens (by decide)) ?_
  rintro _ rfl
  exact .pure ⟨t, ht, rfl⟩

/-- A declaration of one variable whose missing value would not matter. -/
theorem reads_variableStatement {kind : VarKind} {word : String} (hb : 1 ≤ r.bound)
    (hkind : kind ≠ .asyncResource) (hstarts : Starts text (.word word) middle)
    (hmiddle : Opens middle k)
    (h : Reads (declaratorRule r) .body middle (';' :: rest) Q)
    (hcheck : ∀ t, Q t → checkInitializer kind t = pure ()) (hopens : Opens rest k') :
    Reads (variableStatement r kind .list) .body text rest fun _ => True := by
  have hvariables : Reads (variablesRule r kind true) .body text (';' :: rest) fun _ => True := by
    refine .start_bind fun begin => .bind (.advanceKeyword hstarts hmiddle) fun _ _ => ?_
    rw [if_neg hkind]
    refine .bind (reads_declarators hb h) ?_
    rintro _ ⟨t, ht, rfl⟩
    have hchecked : [t].forM (checkInitializer kind) = (pure () : Parser PUnit) := by
      show (checkInitializer kind t >>= fun _ => pure ()) = _
      rw [hcheck t ht]
      rfl
    rw [hchecked]
    exact .bind (.pure (Q := fun _ => True) trivial) fun _ _ =>
      (Reads.node _ _ _).mono fun _ _ => trivial
  refine .start_bind fun begin => .bind hvariables ?_
  rintro ⟨l, span, cs⟩ -
  refine .bind (.endStatement (starts_semicolon rest) hopens) fun _ _ => ?_
  refine .bind .flawIf_false fun _ _ => ?_
  exact (Reads.node _ _ _).mono fun _ _ => trivial

/-- A declarator without value. -/
theorem reads_declarator {w : String} (hw : isBindingWord w = true)
    (hstarts : Starts text (.word w) (';' :: rest)) :
    Reads (declaratorRule r) .body text (';' :: rest)
      fun t => ∃ span s, t = .node .declarator span [.node (.binding w) s [], .absent] := by
  refine .start_bind fun begin =>
    .bind (reads_pattern hw hstarts (starts_semicolon rest).opens) ?_
  rintro _ ⟨s, rfl⟩
  refine .bind (.eatPunct_other (starts_semicolon rest).opens (by decide)) ?_
  rintro _ rfl
  refine .bind (.pure (Q := (· = .absent)) rfl) ?_
  rintro _ rfl
  exact (Reads.node _ _ _).mono fun t ⟨span, ht⟩ => ⟨span, s, ht⟩

/-- A variable without value. -/
theorem asStatement_let {w : String} (hw : IsBinding w) :
    AsStatement .list ("let ".toList ++ (w.toList ++ [';'])) := by
  intro b d gap rest hb hd hgap hrest
  obtain ⟨k, hopens, -⟩ := hrest.opens
  have hlength : 1 ≤ b := by
    simp only [List.length_append] at hb
    have : "let ".toList.length = 4 := rfl
    omega
  have htext : gap ++ ("let ".toList ++ (w.toList ++ [';']) ++ rest)
      = gap ++ ("let".toList ++ ' ' :: (w.toList ++ ';' :: rest)) := by
    simp
  have hlet := (scans_name (w := "let") (by decide) (' ' :: (w.toList ++ ';' :: rest))
    (by rintro _ ⟨⟩; decide)).starts _ hgap
  have hname := (scans_name hw.name (';' :: rest) (by rintro _ ⟨⟩; decide)).starts
    [' '] isGap_space
  -- Behind `let`, a word that is an operator would make an expression of it.
  have hoperator : InfixOp.ofToken? (.word w) = none := by
    have hbinding := hw.binding
    unfold InfixOp.ofToken?
    split
    case h_26 => rfl
    all_goals
      rename_i heq
      cases heq <;> exact absurd hbinding (by decide)
  rw [htext]
  refine ⟨⟨_, hlet.opens, by decide⟩, reads_statement hlet ?_⟩
  refine .start_bind fun begin => .kind_bind hlet.opens (.bind (.plainToken hlet) fun t ht => ?_)
  rw [ht.2.1]
  refine .start_bind fun begin => .bind (.following hlet hname.opens) fun t ht => ?_
  rw [ht, hoperator]
  refine reads_variableStatement (by simpa using hlength) (by decide) hlet hname.opens
    (reads_declarator hw.binding hname) ?_ hopens
  rintro _ ⟨span, s, rfl⟩
  rfl

/-- A constant with a value. -/
theorem asStatement_const {w : String} {value : List Char} (hw : IsBinding w)
    (hvalue : AsOperand value fun t => t.isAbsent = false) :
    AsStatement .list ("const ".toList ++ (w.toList ++ ' ' :: '=' :: ' ' :: (value ++ [';']))) := by
  intro b d gap rest hb hd hgap hrest
  obtain ⟨k, hopens, -⟩ := hrest.opens
  have hconst : "const ".toList.length = 6 := rfl
  have hpos := hvalue.length_pos
  simp only [List.length_append, List.length_cons] at hb hd
  have htext : gap
      ++ ("const ".toList ++ (w.toList ++ ' ' :: '=' :: ' ' :: (value ++ [';'])) ++ rest)
      = gap ++ ("const".toList
        ++ ' ' :: (w.toList ++ ' ' :: '=' :: ' ' :: (value ++ ';' :: rest))) := by
    simp
  have hword := (scans_name (w := "const") (by decide)
    (' ' :: (w.toList ++ ' ' :: '=' :: ' ' :: (value ++ ';' :: rest)))
    (by rintro _ ⟨⟩; decide)).starts _ hgap
  have hname := (scans_name hw.name (' ' :: '=' :: ' ' :: (value ++ ';' :: rest))
    (by rintro _ ⟨⟩; decide)).starts [' '] isGap_space
  have hequals := starts_equals (value ++ ';' :: rest)
  obtain ⟨k', behind, hstarts, hk', hreads⟩ := hvalue.reads b d [' '] (';' :: rest) (by omega)
    (by omega) isGap_space (.semicolon rest)
  have hassignment := reads_value hstarts hk' (reads_binary Level.comma (by omega)
    hstarts hk' hreads (starts_semicolon rest).opens (by decide) (by simp)) (.semicolon rest)
  rw [htext]
  refine ⟨⟨_, hword.opens, by decide⟩, reads_statement hword ?_⟩
  refine .start_bind fun begin => .kind_bind hword.opens ?_
  refine reads_variableStatement (Q := fun t => ∃ span p v, v.isAbsent = false
    ∧ t = .node .declarator span [p, v]) (by simp; omega) (by decide) hword hname.opens ?_ ?_ hopens
  · refine .start_bind fun begin =>
      .bind (reads_pattern hw.binding hname hequals.opens) fun p _ => ?_
    refine .bind (.eatPunct hequals hstarts.opens) ?_
    rintro _ rfl
    refine .bind hassignment fun v hv => ?_
    exact (Reads.node _ _ _).mono fun t ⟨span, ht⟩ => ⟨span, p, v, hv, ht⟩
  · rintro _ ⟨span, p, v, hv, rfl⟩
    simp [checkInitializer, hv]

/-! ## Returns and conditions -/

/-- A returned variable. -/
theorem asStatement_return {w : String} (hw : IsVariable w) :
    AsStatement .list ("return ".toList ++ (w.toList ++ [';'])) := by
  intro b d gap rest hb hd hgap hrest
  obtain ⟨k, hopens, -⟩ := hrest.opens
  simp only [List.length_append, List.length_cons] at hb hd
  have htext : gap ++ ("return ".toList ++ (w.toList ++ [';']) ++ rest)
      = gap ++ ("return".toList ++ ' ' :: (w.toList ++ ';' :: rest)) := by
    simp
  have hword := (scans_name (w := "return") (by decide) (' ' :: (w.toList ++ ';' :: rest))
    (by rintro _ ⟨⟩; decide)).starts _ hgap
  have hscans := scans_name hw.name (';' :: rest) (by rintro _ ⟨⟩; decide)
  have hname := hscans.starts [' '] isGap_space
  obtain ⟨-, -, -, hreads⟩ := (asOperand_variable hw).asExpression b d [' '] (';' :: rest)
    (by omega) (by omega) isGap_space (.semicolon rest)
  rw [htext]
  refine ⟨⟨_, hword.opens, by decide⟩, reads_statement hword ?_⟩
  refine .start_bind fun begin => .kind_bind hword.opens (.start_bind fun begin => ?_)
  refine .bind .context fun c hc => ?_
  rw [hc]
  refine .bind .flawIf_false fun _ _ => .bind (.advanceKeyword hword hname.opens) fun _ _ => ?_
  -- What is returned stands on the same line.
  refine .bind (.canEnd_word hname.opens fun o t => hscans.sameLine [' '] (by simp) o t) ?_
  rintro _ rfl
  refine .bind (.within (reads_expression hreads (starts_semicolon rest).opens (by decide)))
    fun value _ => ?_
  refine .bind (.pure (Q := fun _ => True) trivial) fun value _ => ?_
  refine .bind (.endStatement (starts_semicolon rest) hopens) fun _ _ => ?_
  exact (Reads.node _ _ _).mono fun _ _ => trivial

/-- A statement under a condition. -/
theorem asStatement_if {test body : List Char} (htest : AsExpression test)
    (hbody : AsStatement .single body) :
    AsStatement .list ("if (".toList ++ (test ++ (") ".toList ++ body))) := by
  intro b d gap rest hb hd hgap hrest
  obtain ⟨k, hopens, hk⟩ := hrest.opens
  have hif : "if (".toList.length = 4 := rfl
  simp only [List.length_append] at hb hd
  have htext : gap ++ ("if (".toList ++ (test ++ (") ".toList ++ body)) ++ rest)
      = gap ++ ("if".toList ++ ' ' :: '(' :: (test ++ ')' :: ' ' :: (body ++ rest))) := by
    simp
  have hword := (scans_name (w := "if") (by decide)
    (' ' :: '(' :: (test ++ ')' :: ' ' :: (body ++ rest)))
    (by rintro _ ⟨⟩; decide)).starts _ hgap
  have hopen := (scans_separator (p := "(") (by decide)
    (test ++ ')' :: ' ' :: (body ++ rest))).starts [' '] isGap_space
  obtain ⟨d, rfl⟩ := Nat.exists_eq_add_of_le' (show 1 ≤ d by omega)
  obtain ⟨ktest, hinner, -, hreads⟩ := htest b (d + 1) [] (')' :: ' ' :: (body ++ rest)) (by omega)
    (by omega) (by simp) (.close _)
  obtain ⟨⟨kbody, hbegin, -⟩, hstatement⟩ := hbody b d [' '] rest (by omega) (by omega) isGap_space
    hrest
  have hclose := starts_close (' ' :: (body ++ rest))
  rw [htext]
  refine ⟨⟨_, hword.opens, by decide⟩, reads_statement hword ?_⟩
  refine .start_bind fun begin => .kind_bind hword.opens (.start_bind fun begin => ?_)
  refine .bind (.advanceKeyword hword hopen.opens) fun _ _ => ?_
  have hparen : Reads (parenTest (rules b (d + 1))) .body
      (' ' :: '(' :: (test ++ ')' :: ' ' :: (body ++ rest))) (' ' :: (body ++ rest))
      fun _ => True :=
    .bind (.expectPunct hopen hinner) fun _ _ =>
      .bind (.within (reads_expression hreads hclose.opens (by decide))) fun _ _ =>
        .bind (.expectPunct hclose hbegin) fun _ _ => .pure trivial
  refine .bind hparen fun t _ => .bind hstatement fun yes _ => ?_
  -- Nothing that follows a statement starts with `else`.
  refine .bind (.eatWord_other hopens fun heq => hk (by simp [heq])) ?_
  rintro _ rfl
  exact (Reads.node _ _ _).mono fun _ _ => trivial

/-! ## Several statements -/

/-- The closing brace of a body comes next, or the end. -/
def atClose : Parser Bool := return (← atPunct "\x7d") || (← atEnd)

/-- The text is read as statements before every text that is. -/
def AsStatements (text : List Char) : Prop :=
  ∀ b d rest final n, text.length ≤ b → text.length < d → NextLine rest →
    (∀ m prologue, n ≤ m →
      Reads (statementsUntil (rules b d) atClose m prologue) .body rest final fun _ => True) →
    NextLine (text ++ rest) ∧ ∀ m prologue, n + text.length ≤ m →
      Reads (statementsUntil (rules b d) atClose m prologue) .body (text ++ rest) final
        fun _ => True

theorem asStatements_nil : AsStatements [] := fun _ _ _ _ _ _ _ hrest h =>
  ⟨hrest, fun m prologue hm => h m prologue hm⟩

theorem AsStatements.append {first second : List Char} (h : AsStatements first)
    (h' : AsStatements second) : AsStatements (first ++ second) := by
  intro b d rest final n hb hd hrest hfinal
  rw [List.length_append] at hb hd
  obtain ⟨hnext, hsecond⟩ := h' b d rest final n (by omega) (by omega) hrest hfinal
  -- The second text and the rest are together what stands behind the first one.
  obtain ⟨hnext', hfirst⟩ := h b d _ final (n + second.length) (by omega) (by omega) hnext hsecond
  rw [List.append_assoc]
  refine ⟨hnext', fun m prologue hm => hfirst m prologue ?_⟩
  rw [List.length_append] at hm
  omega

theorem asStatements_flatMap {α : Type} {f : α → List Char} {xs : List α}
    (h : ∀ x ∈ xs, AsStatements (f x)) : AsStatements (xs.flatMap f) := by
  induction xs with
  | nil => exact asStatements_nil
  | cons x xs ih =>
    obtain ⟨hx, hxs⟩ := List.forall_mem_cons.mp h
    exact hx.append (ih hxs)

/-- No closing brace and no end comes next. -/
theorem reads_atClose (hopens : Opens text k) (hk : k ≠ .punct "\x7d") (hk' : k ≠ .endOfInput) :
    Reads atClose .body text text (· = false) := by
  refine .bind (.atPunct hopens "\x7d") ?_
  rintro _ rfl
  refine .bind (.atEnd hopens) ?_
  rintro _ rfl
  rw [decide_eq_false hk, decide_eq_false hk']
  exact .pure rfl

/-- A statement on a line of its own. -/
theorem AsStatement.asStatements {e gap : List Char} (h : AsStatement .list e)
    (hgap : ∀ c ∈ gap, isGap c = true) : AsStatements ('\n' :: (gap ++ e)) := by
  intro b d rest final n hb hd hrest hfinal
  simp only [List.length_cons, List.length_append] at hb hd
  obtain ⟨d, rfl⟩ := Nat.exists_eq_add_of_lt (show 0 < d by omega)
  rw [Nat.zero_add] at *
  obtain ⟨⟨k, hopens, hk⟩, hreads⟩ := h b d ('\n' :: gap) rest (by omega) (by omega)
    (List.forall_mem_cons.mpr ⟨rfl, hgap⟩) hrest
  rw [List.cons_append] at hopens hreads
  rw [List.cons_append, List.append_assoc]
  refine ⟨⟨rfl, k, hopens, fun hmem => hk (by simp_all)⟩, fun m prologue hm => ?_⟩
  simp only [List.length_cons, List.length_append] at hm
  obtain ⟨m, rfl⟩ := Nat.exists_eq_add_of_lt (show 0 < m by omega)
  rw [Nat.zero_add]
  refine .bind (reads_atClose hopens (fun heq => hk (by simp [heq]))
    fun heq => hk (by simp [heq])) ?_
  rintro _ rfl
  refine .bind .get fun s _ => .bind hreads fun t _ => ?_
  -- A directive is a statement as well.
  split
  · exact .bind (hfinal m true (by omega)) fun _ _ => .pure trivial
  · exact .bind (hfinal m false (by omega)) fun _ _ => .pure trivial

end

end Reactive.Script.Parser
