/-
  Expressions that compiled components are written with.

  An operand is passed through the layers of the grammar between operands and expressions once, in
  `AsOperand.asExpression`; assignments to variables and members, and alternatives, stop on the way.
-/
import Reactive.Proofs.Script.Operand

namespace Reactive.Script.Parser

section

variable {b d : Nat} {rest : List Char}

/-! ## From operands to expressions -/

/-- What a token that starts an operand is not. -/
theorem startsOperand_facts {k : TokenKind} (h : startsOperand k = true) :
    UpdateOp.ofToken? k = none ∧ UnaryOp.ofToken? k = none ∧ (∀ n, k ≠ .privateName n)
      ∧ k ∉ [.word "async", .word "await", .word "yield", .punct "(", .punct ")", .punct "]",
        .punct ",", .punct "..."] := by
  cases k with
  | word w =>
    have hw : w ∉ specialWords := by simpa [startsOperand] using h
    have hplain : ∀ v ∈ specialWords, w ≠ v := fun v hv heq => hw (heq ▸ hv)
    simp only [specialWords, reservedWords, List.cons_append, List.forall_mem_cons] at hplain
    refine ⟨rfl, ?_, by simp, by simp [hplain]⟩
    unfold UnaryOp.ofToken?
    split <;> simp_all
  | string v => exact ⟨rfl, rfl, by simp, by simp⟩
  | punct p =>
    obtain rfl | rfl : p = "\x7b" ∨ p = "[" := by simpa [startsOperand] using h
    · exact ⟨rfl, rfl, by simp, by decide⟩
    · exact ⟨rfl, rfl, by simp, by decide⟩
  | _ => cases h

/-- What a token behind an operand is not. -/
theorem operandEndings_facts {k : TokenKind} (h : k ∈ operandEndings) :
    UpdateOp.ofToken? k = none ∧ k ≠ .punct "=>" := by
  simp only [operandEndings, endings, List.cons_append, List.nil_append, List.mem_cons,
    List.not_mem_nil, or_false] at h
  rcases h with rfl | rfl | rfl | rfl | rfl | rfl <;> decide

/-- What a token behind an expression is not. -/
theorem endings_facts {k : TokenKind} (h : k ∈ endings) :
    AssignOp.ofToken? k = none ∧ k ∉ [.punct "=>", .punct "?", .punct "||"] := by
  simp only [endings, List.mem_cons, List.not_mem_nil, or_false] at h
  rcases h with rfl | rfl | rfl | rfl <;> decide

section

variable {r : Rules} {text behind : List Char} {k k' : TokenKind} {Q : Tree → Prop}

/-- An operand without prefix or postfix operators. -/
theorem reads_unary (hstarts : Starts text k behind) (hk : startsOperand k = true)
    (h : Reads (operandRule r) .body text rest Q) (hopens : Opens rest k')
    (hk' : k' ∈ operandEndings) : Reads (hinted (unaryRule r)) .body text rest Q := by
  obtain ⟨hupdate, hunary, -, hwords⟩ := startsOperand_facts hk
  have hawait : Reads atAwait .body text text (· = false) := by
    refine .bind (.atWord hstarts.opens "await") ?_
    rintro _ rfl
    rw [decide_eq_false (fun hk => hwords (by simp [hk]))]
    exact .pure rfl
  have hinner : Reads (unaryRule r) .body text rest Q := by
    refine .start_bind fun begin => .kind_bind hstarts.opens ?_
    rw [hunary]
    refine .bind hawait ?_
    rintro _ rfl
    refine .start_bind fun begin => .kind_bind hstarts.opens ?_
    rw [hupdate]
    refine .bind h fun t ht => .kind_bind hopens ?_
    rw [(operandEndings_facts hk').1]
    exact .pure ht
  refine .bind (.plainToken hstarts) fun t ht => .bind hinner fun e he => .pure ?_
  rw [ht.2.2]
  exact he

/-- No operator follows that binds stronger than a level. -/
theorem reads_binarySteps_end {level : Nat} (hopens : Opens rest k') (hk' : k' ∈ operandEndings)
    (hlevel : k' = .punct "||" → Level.logicalOr ≤ level) ( begin bound : Nat) (operand : Operand) :
    Reads (binarySteps r level begin (bound + 1) operand) .body rest rest (· = operand.tree) := by
  refine .kind_bind hopens ?_
  simp only [operandEndings, endings, List.cons_append, List.nil_append, List.mem_cons,
    List.not_mem_nil, or_false] at hk'
  rcases hk' with rfl | rfl | rfl | rfl | rfl | rfl
  iterate 5 exact .pure rfl
  -- The alternative stands outside an operand that binds as strongly.
  dsimp only
  rw [show InfixOp.ofToken? (.punct "||") = some (.logical .or) from rfl]
  dsimp only
  rw [if_pos (by rw [if_neg (by decide)]; exact hlevel rfl)]
  exact .pure rfl

/-- An operand up to an operator that does not bind stronger than a level. -/
theorem reads_binary (level : Nat) (hb : 1 ≤ b) (hstarts : Starts text k behind)
    (hk : startsOperand k = true) (h : Reads (operandRule (rules b d)) .body text rest Q)
    (hopens : Opens rest k') (hk' : k' ∈ operandEndings)
    (hlevel : k' = .punct "||" → Level.logicalOr ≤ level) :
    Reads (binaryRule (rules b d) level) .body text rest Q := by
  obtain ⟨-, -, hprivate, -⟩ := startsOperand_facts hk
  obtain ⟨b, rfl⟩ := Nat.exists_eq_add_of_le' hb
  refine .start_bind fun begin => .bind .context fun c _ => .kind_bind hstarts.opens ?_
  split
  · exact absurd rfl (hprivate _)
  · refine .bind (.atPunct hstarts.opens "(") fun _ _ => ?_
    refine .bind (reads_unary hstarts hk h hopens hk') fun e he => ?_
    rw [bound_rules]
    refine (reads_binarySteps_end hopens hk' hlevel begin b _).mono ?_
    rintro _ rfl
    exact he

/-- Neither an arrow nor a `yield` starts with an operand. -/
theorem reads_noArrow (hstarts : Starts text k behind) (hk : startsOperand k = true) :
    Reads atYield .body text text (· = false)
      ∧ Reads (asyncNameArrow? r) .body text text (· = none)
      ∧ Reads (parenArrow? r) .body text text (· = none) := by
  obtain ⟨-, -, -, hwords⟩ := startsOperand_facts hk
  have hasync : decide (k = .word "async") = false :=
    decide_eq_false fun hk => hwords (by simp [hk])
  refine ⟨?_, ?_, ?_⟩
  · refine .bind (.atWord hstarts.opens "yield") ?_
    rintro _ rfl
    rw [decide_eq_false (fun hk => hwords (by simp [hk]))]
    exact .pure rfl
  · refine .bind (.atWord hstarts.opens "async") ?_
    rintro _ rfl
    rw [hasync]
    exact .pure rfl
  · refine .start_bind fun begin => .bind (.atWord hstarts.opens "async") ?_
    rintro _ rfl
    rw [hasync]
    refine .bind (.atPunct hstarts.opens "(") ?_
    rintro _ rfl
    rw [decide_eq_false (fun hk => hwords (by simp [hk]))]
    exact .pure rfl

/-- What is no arrow and no `yield` has no hint either. -/
theorem reads_assignment (hstarts : Starts text k behind) (hk : startsOperand k = true)
    (h : Reads (assignmentOrArrow r) .body text rest Q) :
    Reads (assignmentRule r) .body text rest Q := by
  refine .bind (reads_noArrow (r := r) hstarts hk).1 ?_
  rintro _ rfl
  refine .bind (.plainToken hstarts) fun t ht => .bind h fun e he => .pure ?_
  rw [ht.2.2]
  exact he

/-- An expression without assignment and condition. -/
theorem reads_value (hstarts : Starts text k behind) (hk : startsOperand k = true)
    (h : Reads (binaryRule r Level.comma) .body text rest Q) (hrest : Ending rest) :
    Reads (assignmentRule r) .body text rest Q := by
  obtain ⟨k', hk', hopens⟩ := hrest.opens
  obtain ⟨-, hasync, harrow⟩ := reads_noArrow (r := r) hstarts hk
  refine reads_assignment hstarts hk (.bind hasync ?_)
  rintro _ rfl
  refine .bind harrow ?_
  rintro _ rfl
  obtain ⟨hassign, hne⟩ := endings_facts hk'
  refine .start_bind fun begin => .bind h fun left hleft => .kind_bind hopens ?_
  split
  · exact absurd List.mem_cons_self hne
  · rw [hassign]
    refine .bind (.eatPunct_other hopens fun h => hne (by simp [h])) ?_
    rintro _ rfl
    exact .pure hleft

/-- A variable or a member, which can be assigned to. -/
def IsTarget (t : Tree) : Prop :=
  (∃ w span, t = .node (.identifier w) span [])
    ∨ ∃ span children, t = .node (.member false) span children

theorem reads_toTarget {t : Tree} (ht : IsTarget t) (c : Context) :
    Reads (toTarget t) c text text fun _ => True := by
  rcases ht with ⟨w, span, rfl⟩ | ⟨span, children, rfl⟩ <;>
    (simp only [toTarget, toSimpleTarget]; exact .pure trivial)

/-- An assignment. -/
theorem reads_assign {tail : List Char} (hstarts : Starts text k behind)
    (hk : startsOperand k = true)
    (h : Reads (binaryRule r Level.comma) .body text (' ' :: '=' :: ' ' :: tail) IsTarget)
    (hopens : Opens (' ' :: tail) k')
    (hvalue : Reads r.assignment .body (' ' :: tail) rest fun _ => True) :
    Reads (assignmentRule r) .body text rest fun _ => True := by
  obtain ⟨-, hasync, harrow⟩ := reads_noArrow (r := r) hstarts hk
  refine reads_assignment hstarts hk (.bind hasync ?_)
  rintro _ rfl
  refine .bind harrow ?_
  rintro _ rfl
  refine .start_bind fun begin => .bind h fun left hleft => .kind_bind (starts_equals tail).opens ?_
  split
  · rename_i heq
    exact absurd heq (by decide)
  · rw [show AssignOp.ofToken? (.punct "=") = some .plain from rfl]
    refine .bind (reads_toTarget hleft _) fun target _ => ?_
    refine .bind (.advance (starts_equals tail) hopens) fun _ _ => .bind hvalue fun value _ => ?_
    exact (Reads.node _ _ _).mono fun _ _ => trivial

end

/-! ## Texts that fit -/

/-- An operand is an expression. -/
theorem AsOperand.asExpression {e : List Char} {Q : Tree → Prop} (h : AsOperand e Q) :
    AsExpression e := by
  intro b d gap rest hb hd hgap hrest
  obtain ⟨k, behind, hstarts, hk, hreads⟩ := h.reads b d gap rest hb hd hgap hrest.operandEnding
  obtain ⟨k', hk', hopens⟩ := hrest.opens
  have hbinary := reads_binary Level.comma (Nat.le_trans h.length_pos hb) hstarts hk
    hreads hopens (List.mem_append_left _ hk') fun heq => absurd (heq ▸ hk') (by decide)
  exact ⟨k, hstarts.opens, fun hmem => (startsOperand_facts hk).2.2.2 (by simp_all),
    (reads_value hstarts hk hbinary hrest).mono fun _ _ => trivial⟩

/-- An assignment. -/
theorem asExpression_assign {target value : List Char} (htarget : AsOperand target IsTarget)
    (hvalue : AsExpression value) : AsExpression (target ++ ' ' :: '=' :: ' ' :: value) := by
  intro b d gap rest hb hd hgap hrest
  have hpos := htarget.length_pos
  simp only [List.length_append, List.length_cons] at hb hd
  obtain ⟨d, rfl⟩ := Nat.exists_eq_add_of_le' (show 1 ≤ d by omega)
  obtain ⟨k, behind, hstarts, hk, hreads⟩ := htarget.reads b (d + 1) gap
    (' ' :: '=' :: ' ' :: (value ++ rest)) (by omega) (by omega) hgap (.equals _)
  obtain ⟨k', hopens, -, hassignment⟩ := hvalue b d [' '] rest (by omega) (by omega)
    isGap_space hrest
  have hbinary := reads_binary Level.comma (by omega) hstarts hk hreads
    (starts_equals _).opens (by decide) (by simp)
  rw [List.append_assoc, List.cons_append, List.cons_append, List.cons_append]
  exact ⟨k, hstarts.opens, fun hmem => (startsOperand_facts hk).2.2.2 (by simp_all),
    reads_assign hstarts hk hbinary hopens hassignment⟩

/-- The alternatives behind the first one. -/
def furtherAlternatives (es : List (List Char)) : List Char := led [' ', '|', '|', ' '] es

theorem operandEnding_furtherAlternatives (es : List (List Char)) {rest : List Char}
    (hrest : Ending rest) : OperandEnding (furtherAlternatives es ++ rest) := by
  cases es with
  | nil => exact hrest.operandEnding
  | cons e es => exact .either _

theorem reads_furtherAlternatives {es : List (List Char)}
    (hes : ∀ e ∈ es, (∃ Q, AsOperand e Q) ∧ e.length ≤ b ∧ e.length ≤ d) (n begin : Nat)
    (operand : Operand) (hrest : Ending rest) :
    Reads (binarySteps (rules b (d + 1)) Level.comma begin (es.length + n + 1) operand) .body
      (furtherAlternatives es ++ rest) rest fun _ => True := by
  induction es generalizing operand with
  | nil =>
    obtain ⟨k', hk', hopens⟩ := hrest.opens
    rw [List.length_nil, Nat.zero_add]
    exact (reads_binarySteps_end hopens (List.mem_append_left _ hk')
      (fun heq => absurd (heq ▸ hk') (by decide)) begin n operand).mono fun _ _ => trivial
  | cons e es ih =>
    obtain ⟨⟨Q, he⟩, hb, hd⟩ := hes e List.mem_cons_self
    have hnext := operandEnding_furtherAlternatives es hrest
    obtain ⟨k', hk', hopens⟩ := hnext.opens
    have htext : furtherAlternatives (e :: es) ++ rest
        = ' ' :: '|' :: '|' :: ' ' :: (e ++ (furtherAlternatives es ++ rest)) := by
      simp [furtherAlternatives, led]
    obtain ⟨k, behind, hstarts, hk, hreads⟩ := he.reads b d [' '] _ hb hd isGap_space hnext
    -- The right side ends before the next alternative, which binds no stronger.
    have hright := reads_binary Level.logicalOr (Nat.le_trans he.length_pos hb) hstarts
      hk hreads hopens hk' fun _ => Nat.le_refl _
    rw [htext, List.length_cons, Nat.add_right_comm _ 1 n]
    refine .kind_bind (starts_either _).opens ?_
    dsimp only
    rw [show InfixOp.ofToken? (.punct "||") = some (.logical .or) from rfl]
    dsimp only
    rw [if_neg (by rw [if_neg (by decide)]; decide)]
    refine .bind .context fun c _ => ?_
    rw [decide_eq_false (by decide), Bool.false_and, if_neg Bool.false_ne_true]
    refine .bind (.advanceKeyword (starts_either _) hstarts.opens) fun _ _ => ?_
    refine .bind (.atPunct hstarts.opens "(") fun opensParen _ => .bind hright fun right _ => ?_
    refine .bind .flawIf_false fun _ _ =>
      .bind (.pure (Q := fun _ => True) trivial) fun label _ => ?_
    refine .bind (.node _ _ _) fun whole _ => ?_
    exact ih (fun x hx => hes x (List.mem_cons_of_mem _ hx)) _

/-- Alternatives. -/
theorem asExpression_alternatives {e : List Char} {es : List (List Char)}
    (hes : ∀ x ∈ e :: es, ∃ Q, AsOperand x Q) : AsExpression (e ++ furtherAlternatives es) := by
  intro b d gap rest hb hd hgap hrest
  obtain ⟨Q, he⟩ := hes e List.mem_cons_self
  obtain ⟨hcount, hlengths⟩ := length_led [' ', '|', '|', ' '] (by simp) es
  have hpos := he.length_pos
  rw [List.length_append, furtherAlternatives] at hb hd
  have hnext := operandEnding_furtherAlternatives es hrest
  obtain ⟨k', hk', hopens⟩ := hnext.opens
  obtain ⟨d, rfl⟩ := Nat.exists_eq_add_of_le' (show 1 ≤ d by omega)
  obtain ⟨n, rfl⟩ := Nat.exists_eq_add_of_le (show es.length + 1 ≤ b by omega)
  obtain ⟨k, behind, hstarts, hk, hreads⟩ := he.reads (es.length + 1 + n) (d + 1) gap _
    (by omega) (by omega) hgap hnext
  obtain ⟨-, -, hprivate, hwords⟩ := startsOperand_facts hk
  -- All alternatives are read by one binary rule, from left to right.
  have hbinary : Reads (binaryRule (rules (es.length + 1 + n) (d + 1)) Level.comma) .body
      (gap ++ (e ++ (furtherAlternatives es ++ rest))) rest fun _ => True := by
    refine .start_bind fun begin => .bind .context fun c _ => .kind_bind hstarts.opens ?_
    split
    · exact absurd rfl (hprivate _)
    · refine .bind (.atPunct hstarts.opens "(") fun _ _ => ?_
      refine .bind (reads_unary hstarts hk hreads hopens hk') fun t _ => ?_
      rw [bound_rules, Nat.add_right_comm]
      refine reads_furtherAlternatives (fun x hx => ?_) n begin _ hrest
      have hle := hlengths x hx
      exact ⟨hes x (List.mem_cons_of_mem _ hx), by omega, by omega⟩
  rw [List.append_assoc]
  exact ⟨k, hstarts.opens, fun hmem => hwords (by simp_all), reads_value hstarts hk hbinary hrest⟩

end

end Reactive.Script.Parser
