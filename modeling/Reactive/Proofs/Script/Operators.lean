/-
  Operators of plain expressions.

  A prefix operator stands before an operand and a binary one between two. The parser reads binary
  operators in a loop that takes every operator that binds stronger than what stands to the left, so
  a printed operand is read as a whole where the operator behind it binds no stronger than its own.
-/
import Reactive.Proofs.Script.Chains

namespace Reactive.Script

open Reactive.Script.Parser

/-! ## Prefix operators as tokens -/

/-- The token of a prefix operator. -/
def UnaryOp.token (op : UnaryOp) : TokenKind := if op.isWord then .word op.text else .punct op.text

theorem UnaryOp.ofToken?_token (op : UnaryOp) : UnaryOp.ofToken? op.token = some op := by
  cases op <;> rfl

theorem UpdateOp.ofToken?_text (op : UpdateOp) : UpdateOp.ofToken? (.punct op.text) = some op := by
  cases op <;> rfl

namespace Parser

/-- How the text of an operand starts: with no equals sign, and with a sign only if it is a signed
one. -/
def Signed (sign : Option Char) (x : List Char) : Prop :=
  ∃ c y, x = c :: y ∧ c ≠ '=' ∧ (c ∈ ['+', '-'] → sign = some c)

/-- A sign before something that does not make it longer. -/
theorem scans_sign {c c' : Char} {p : String} (hp : (c, p) ∈ [('+', "+"), ('-', "-"), ('!', "!")])
    (hequals : c' ≠ '=') (hsame : c = '!' ∨ c' ≠ c) (rest : List Char) :
    Scans (c :: c' :: rest) (.punct p) (c' :: rest) := by
  have hlong : ('=' == c') = false := beq_false_of_ne hequals.symm
  simp only [List.mem_cons, Prod.mk.injEq, List.not_mem_nil, or_false] at hp
  have hat : punctuatorAt (c :: c' :: rest) = some p := by
    rcases hp with ⟨rfl, rfl⟩ | ⟨rfl, rfl⟩ | ⟨rfl, rfl⟩
    · have hdouble : ('+' == c') = false := beq_false_of_ne (hsame.resolve_left (by decide)).symm
      simp [punctuatorAt, punctuators, List.isPrefixOf, hlong, hdouble]
    · have hdouble : ('-' == c') = false := beq_false_of_ne (hsame.resolve_left (by decide)).symm
      simp [punctuatorAt, punctuators, List.isPrefixOf, hlong, hdouble]
    · simp [punctuatorAt, punctuators, List.isPrefixOf, hlong]
  -- No token of another kind starts with a sign.
  have hscan (offset : Nat) : scanToken ⟨c :: c' :: rest, offset⟩
      = .ok (.punct p) ((⟨c :: c' :: rest, offset⟩ : Cursor).skip p.length) := by
    rcases hp with ⟨rfl, rfl⟩ | ⟨rfl, rfl⟩ | ⟨rfl, rfl⟩ <;>
      (unfold scanToken; dsimp only; rw [hat]; rfl)
  have hsign : isSolid c = true ∧ p.length = 1 := by
    rcases hp with ⟨rfl, rfl⟩ | ⟨rfl, rfl⟩ | ⟨rfl, rfl⟩ <;> exact ⟨rfl, rfl⟩
  refine ⟨hsign.1, fun offset => ⟨(⟨c :: c' :: rest, offset⟩ : Cursor).skip 1, rfl, ?_⟩⟩
  rw [hscan, hsign.2]
  rfl

/-- A prefix operator before its operand. -/
theorem scans_unary (op : UnaryOp) {t : Tree} {x : List Char} (hx : Signed t.sign? x)
    (rest : List Char) :
    Scans (op.text.toList ++ (prefixGap op t ++ (x ++ rest))) op.token
      (prefixGap op t ++ (x ++ rest)) := by
  obtain ⟨c, y, rfl, hequals, hsign⟩ := hx
  obtain ⟨c', tail, htail, hequals', hblank, hsame⟩ : ∃ c' tail,
      prefixGap op t ++ ((c :: y) ++ rest) = c' :: tail ∧ c' ≠ '=' ∧ (op.isWord = true → c' = ' ')
        ∧ (op.text.front ∈ ['+', '-'] → c' ≠ op.text.front) := by
    unfold prefixGap
    split
    · refine ⟨' ', _, rfl, by decide, fun _ => rfl, fun hmem heq => ?_⟩
      rw [← heq] at hmem
      exact absurd hmem (by decide)
    · rename_i hnone
      simp only [Bool.or_eq_true, beq_iff_eq, not_or, Bool.not_eq_true] at hnone
      refine ⟨c, y ++ rest, rfl, hequals, fun hword => ?_, fun hmem heq => ?_⟩
      · rw [hnone.1] at hword
        cases hword
      · exact hnone.2 (heq ▸ hsign (heq ▸ hmem))
  rw [htail]
  have hword {w : String} (hw : IsName w) (hc' : c' = ' ') :
      Scans (w.toList ++ c' :: tail) (.word w) (c' :: tail) :=
    scans_name hw _ (by rintro _ ⟨⟩; rw [hc']; decide)
  cases op with
  | plus => exact scans_sign (by decide) hequals' (.inr (hsame (by decide))) tail
  | minus => exact scans_sign (by decide) hequals' (.inr (hsame (by decide))) tail
  | not => exact scans_sign (by decide) hequals' (.inl rfl) tail
  | bitNot => exact ⟨rfl, fun _ => ⟨_, rfl, rfl⟩⟩
  | typeof => exact hword (w := "typeof") (by decide) (hblank rfl)
  | void => exact hword (w := "void") (by decide) (hblank rfl)
  | delete => exact hword (w := "delete") (by decide) (hblank rfl)

theorem scans_update (op : UpdateOp) (rest : List Char) :
    Scans (op.text.toList ++ rest) (.punct op.text) rest := by
  cases op <;> exact ⟨rfl, fun _ => ⟨_, rfl, rfl⟩⟩

/-! ## Prefix and postfix operators -/

/-- The text is an operand with prefix and postfix operators. -/
structure AsUnary (sign : Option Char) (x : List Char) (Q : Tree → Prop) : Prop where
  signed : Signed sign x
  begins : ∀ rest k, Behind rest k → Begins true x rest
  reads : ∀ b d gap rest k, x.length < b → x.length ≤ d → (∀ c ∈ gap, isGap c = true) →
    Behind rest k → Reads (unaryRule (rules b d)) .module (gap ++ (x ++ rest)) rest Q

section

variable {b d : Nat} {gap x rest : List Char} {k : TokenKind} {Q : Tree → Prop} {number : Bool}
  {sign : Option Char}

theorem Behind.endsOperand (h : Behind rest k) (number : Bool) : Ends number rest :=
  ⟨EndsNumber.endsName h.ends, fun _ => h.ends⟩

/-- An operand with all of its steps. -/
theorem AsChain.reads_operand (h : AsChain number x Q) (hb : x.length < b) (hd : x.length ≤ d)
    (hgap : ∀ c ∈ gap, isGap c = true) (hends : Ends number rest) (hopens : Opens rest k)
    (hsteps : k ∉ steps) (htemplate : ∀ raw valid last, k ≠ .template raw valid last) :
    Reads (operandRule (rules b d)) .module (gap ++ (x ++ rest)) rest Q := by
  refine .start_bind fun origin => ?_
  rw [memberRule, bind_assoc]
  refine .start_bind fun begin => ?_
  have hchain := h.reads b d gap rest rest k begin origin (fun x => Q x.1 ∧ x.2 = false) hb hd
    hgap hends hopens fun t begin bound called calls ht hbound hcalls =>
      (reads_chainFrom_end hopens hsteps htemplate (by omega) (by omega) (by omega) begin origin
        called t).mono (by rintro _ rfl; exact ⟨ht, rfl⟩)
  have hwhole : Reads ((primaryRule (rules b d) >>= chainFrom (rules b d) begin b origin false b)
      >>= fun x => if x.2 then node .chain origin [x.1] else pure x.1) .module (gap ++ (x ++ rest))
      rest Q := by
    refine .bind hchain ?_
    rintro ⟨t, _⟩ ⟨ht, rfl⟩
    exact .pure ht
  simp only [chainFrom, bind_assoc] at hwhole
  rw [bind_assoc, bound_rules]
  exact hwhole

theorem reads_noAwait {text : List Char} (h : Opens text k) (hk : k ≠ .word "await") :
    Reads atAwait .module text text (· = false) := by
  refine .bind (.atWord h "await") ?_
  rintro _ rfl
  rw [decide_eq_false hk]
  exact .pure rfl

/-- What stands before an operand is no prefix operator. -/
theorem Lead.reads_unary {last : List Char} (hlead : Lead false rest (x ++ rest))
    (hgap : ∀ c ∈ gap, isGap c = true)
    (h : ∀ begin, Reads (do
      let e ← operandRule (rules b d)
      match UpdateOp.ofToken? (← kind) with
      | some op =>
        if (← token).newlineBefore then return e
        else
          advance
          let t ← toSimpleTarget e
          node (.update op false) begin [t]
      | none => return e) .module (gap ++ (x ++ rest)) last Q) :
    Reads (unaryRule (rules b d)) .module (gap ++ (x ++ rest)) last Q := by
  obtain ⟨k₁, behind, hscans, hk₁⟩ := hlead.first
  have hopens := (hscans.starts gap hgap).opens
  obtain ⟨hupdate, hunary⟩ := startsPlain_operand hk₁
  have hawait : k₁ ≠ .word "await" := fun heq =>
    (startsPlain_facts hk₁).1 (by simp [heq, outsiders])
  refine .start_bind fun _ => .kind_bind hopens ?_
  rw [hunary]
  refine .bind (reads_noAwait hopens hawait) ?_
  rintro _ rfl
  refine .start_bind fun begin => .kind_bind hopens ?_
  rw [hupdate]
  exact h begin

theorem AsChain.asUnary (h : AsChain number x Q) (sign : Option Char) : AsUnary sign x Q := by
  have hbegins {rest : List Char} {k : TokenKind} (hrest : Behind rest k) : Begins false x rest :=
    h.begins rest k (hrest.endsOperand number) hrest.opens fun heq =>
      hrest.follower.facts.1 (by simp [heq, steps])
  obtain ⟨c, y, hx, hc⟩ := h.head
  refine ⟨⟨c, y, hx, fun heq => hc (by simp [heq]), fun hmem =>
    absurd (List.mem_cons_of_mem _ hmem) hc⟩, fun rest k hrest => (hbegins hrest).mono, ?_⟩
  intro b d gap rest k hb hd hgap hrest
  obtain ⟨hsteps, hupdate, htemplate⟩ := hrest.follower.facts
  refine (hbegins hrest).lead.reads_unary hgap fun begin => ?_
  refine .bind (h.reads_operand hb hd hgap (hrest.endsOperand number) hrest.opens hsteps htemplate)
    fun t ht => .kind_bind hrest.opens ?_
  rw [hupdate]
  exact .pure ht

/-- A variable or member is a target as it is. -/
theorem reads_toSimpleTarget {t : Tree} (ht : t.label.isReference = true) (c : Context)
    (text : List Char) : Reads (toSimpleTarget t) c text text (· = t) := by
  obtain ⟨l, s, cs⟩ := t
  obtain ⟨w, rfl⟩ | rfl | rfl := Label.isReference_cases ht <;>
    (simp only [toSimpleTarget]; exact .pure rfl)

/-- An increment or decrement behind its operand. -/
theorem asUnary_updated (h : AsChain false x Q) (hQ : ∀ t, Q t → t.label.isReference = true)
    (op : UpdateOp) (sign : Option Char) :
    AsUnary sign (x ++ op.text.toList)
      fun t => ∃ s t', Q t' ∧ t = .node (.update op false) s [t'] := by
  obtain ⟨c, y, hx, hc⟩ := h.head
  have hscans (rest : List Char) := scans_update op rest
  have hends (rest : List Char) : Ends false (op.text.toList ++ rest) := by
    cases op <;> exact ⟨by rintro _ ⟨⟩; decide, by simp⟩
  have hopens (rest : List Char) := ((hscans rest).starts [] (by simp)).opens
  have hk : TokenKind.punct op.text ∉ steps ++ [.punct ":", .punct "?", .punct ",", .punct "=",
      .punct ")"] := by
    cases op <;> decide
  have hbegins (rest : List Char) : Begins false x (op.text.toList ++ rest) :=
    h.begins _ _ (hends rest) (hopens rest) fun heq => hk (by simp [heq, steps])
  refine ⟨⟨c, y ++ op.text.toList, by rw [hx]; rfl, fun heq => hc (by simp [heq]),
    fun hmem => absurd (List.mem_cons_of_mem _ hmem) hc⟩, fun rest k _ => ?_, ?_⟩
  · exact ((hbegins rest).extend ((hbegins rest).lead.extend (hopens rest) fun hmem =>
      hk (List.mem_append_right _ hmem))).mono
  · intro b d gap rest k hb hd hgap hrest
    rw [List.length_append] at hb hd
    rw [List.append_assoc]
    have hline : Reads token .module (op.text.toList ++ rest) (op.text.toList ++ rest)
        (·.newlineBefore = false) := by
      intro s hs _
      obtain ⟨offset, trivia, -, -, htoken, -⟩ := id hs
      exact ⟨s.token, s, rfl, hs.reaches_self, htoken ▸ (hscans rest).sameLine [] (by simp) _ _⟩
    refine (hbegins rest).lead.reads_unary hgap fun begin => ?_
    refine .bind (h.reads_operand (by omega) (by omega) hgap (hends rest) (hopens rest)
      (fun hmem => hk (List.mem_append_left _ hmem)) (by simp)) fun t ht =>
        .kind_bind (hopens rest) ?_
    rw [UpdateOp.ofToken?_text]
    refine .bind hline fun t' hline => ?_
    rw [hline]
    refine .bind (.advance ((hscans rest).starts [] (by simp)) hrest.opens) fun _ _ => ?_
    refine .bind (reads_toSimpleTarget (hQ t ht) _ _) ?_
    rintro _ rfl
    refine (Reads.node _ _ _).mono ?_
    rintro _ ⟨s, rfl⟩
    exact ⟨s, _, ht, rfl⟩

/-- An increment or decrement before its operand. -/
theorem asUnary_update (h : AsUnary none x Q) (hQ : ∀ t, Q t → t.label.isReference = true)
    (op : UpdateOp) :
    AsUnary (some op.text.front) (op.text.toList ++ x)
      fun t => ∃ s t', Q t' ∧ t = .node (.update op true) s [t'] := by
  have hscans (rest : List Char) := scans_update op (x ++ rest)
  have htoken : startsFixed true (.punct op.text) = true ∧ TokenKind.punct op.text ≠ .punct "("
      ∧ UnaryOp.ofToken? (.punct op.text) = none ∧ (op.text.toList).length = 2 := by
    cases op <;> exact ⟨rfl, by decide, rfl, rfl⟩
  obtain ⟨hfixed, hparen, hunary, hlength⟩ := htoken
  refine ⟨?_, fun rest k hrest => ?_, ?_⟩
  · cases op <;> exact ⟨_, _, rfl, by decide, fun _ => rfl⟩
  · have hscans : Scans ((op.text.toList ++ x) ++ rest) (.punct op.text) (x ++ rest) := by
      rw [List.append_assoc]
      exact hscans rest
    exact begins_of_lead (.fixed hscans hfixed) hscans nofun hparen
  · intro b d gap rest k hb hd hgap hrest
    rw [List.length_append] at hb hd
    obtain ⟨d, rfl⟩ := Nat.exists_eq_add_of_le' (show 1 ≤ d by omega)
    have hstarts := (hscans rest).starts gap hgap
    obtain ⟨k₁, behind, hinner, -⟩ := (h.begins rest k hrest).lead.first
    rw [List.append_assoc]
    refine .start_bind fun _ => .kind_bind hstarts.opens ?_
    rw [hunary]
    refine .bind (reads_noAwait hstarts.opens nofun) ?_
    rintro _ rfl
    refine .start_bind fun begin => .kind_bind hstarts.opens ?_
    rw [UpdateOp.ofToken?_text]
    refine .bind (.advance hstarts (hinner.starts [] (by simp)).opens) fun _ _ => ?_
    refine .bind (h.reads b d [] rest k (by omega) (by omega) (by simp) hrest) fun t ht => ?_
    refine .bind (reads_toSimpleTarget (hQ t ht) _ _) ?_
    rintro _ rfl
    refine (Reads.node _ _ _).mono ?_
    rintro _ ⟨s, rfl⟩
    exact ⟨s, _, ht, rfl⟩

/-- A reader before which no hint stands. -/
theorem Reads.hinted {p : Parser Tree} {text behind last : List Char}
    (hstarts : Starts text k behind) (h : Reads p .module text last Q) :
    Reads (hinted p) .module text last Q := by
  refine .bind (.plainToken hstarts) fun t ht => .bind h fun e he => ?_
  rw [ht.2.2]
  exact .pure he

/-- A prefix operator. -/
theorem asUnary_operator {t : Tree} (h : AsUnary t.sign? x Q) (op : UnaryOp) :
    AsUnary (Label.unary op).sign? (op.text.toList ++ (prefixGap op t ++ x))
      fun t => ∃ s t', Q t' ∧ t = .node (.unary op) s [t'] := by
  have hscans (rest : List Char) := scans_unary op h.signed rest
  have htoken : startsFixed true op.token = true ∧ op.token ≠ .punct "(" ∧ op.token ≠ .word "async"
      ∧ 1 ≤ op.text.toList.length := by
    cases op <;> exact ⟨rfl, by decide, by decide, by decide⟩
  obtain ⟨hfixed, hparen, hasync, hlength⟩ := htoken
  have hgap : ∀ c ∈ prefixGap op t, isGap c = true := by
    unfold prefixGap
    split
    · exact isGap_space
    · simp
  refine ⟨?_, fun rest k hrest => ?_, ?_⟩
  · cases op <;> exact ⟨_, _, rfl, by decide, by decide⟩
  · have hscans : Scans ((op.text.toList ++ (prefixGap op t ++ x)) ++ rest) op.token
        (prefixGap op t ++ (x ++ rest)) := by
      rw [List.append_assoc, List.append_assoc]
      exact hscans rest
    exact begins_of_lead (.fixed hscans hfixed) hscans hasync hparen
  · intro b d gap rest k hb hd hgap' hrest
    rw [List.length_append, List.length_append] at hb hd
    obtain ⟨d, rfl⟩ := Nat.exists_eq_add_of_le' (show 1 ≤ d by omega)
    have hstarts := (hscans rest).starts gap hgap'
    obtain ⟨k₁, behind, hinner, -⟩ := (h.begins rest k hrest).lead.first
    have hinner := hinner.starts (prefixGap op t) hgap
    have hreads := h.reads b d (prefixGap op t) rest k (by omega) (by omega) hgap hrest
    rw [List.append_assoc, List.append_assoc]
    refine .start_bind fun begin => .kind_bind hstarts.opens ?_
    rw [UnaryOp.ofToken?_token]
    refine .bind (.advanceKeyword hstarts hinner.opens) fun _ _ => ?_
    refine .bind (Reads.hinted hinner hreads) fun t' ht' => (Reads.node _ _ _).mono ?_
    rintro _ ⟨s, rfl⟩
    exact ⟨s, t', ht', rfl⟩

end

end Parser

/-! ## Binary operators -/

/-- The label of an expression with the operator. -/
def InfixOp.label : InfixOp → Label
  | .binary op => .binary op
  | .logical op => .logical op

/-- The sides may not stand beside the operator without parentheses. -/
def InfixOp.clashes : InfixOp → Operand → Operand → Bool
  | .binary op, left, _ => op = .exp && isPrefixed left.tree
  | .logical op, left, right => op = .coalesce && mixesCoalesce left right

theorem InfixOp.level_le (op : InfixOp) : op.level ≤ Level.exponentiation := by
  cases op with
  | binary op => exact op.level_bounds.2
  | logical op => exact Nat.le_trans op.level_bounds.2 (by decide)

theorem InfixOp.comma_lt_level (op : InfixOp) : Level.comma < op.level := by
  cases op with
  | binary op => exact Nat.lt_of_lt_of_le (by decide) op.level_bounds.1
  | logical op => exact Nat.lt_of_lt_of_le (by decide) op.level_bounds.1

/-- Only exponentiation binds that strongly. -/
theorem InfixOp.level_ne {op : InfixOp} (h : op ≠ .binary .exp) :
    op.level ≠ Level.exponentiation := by
  rcases op with op | op <;> cases op <;> first | exact absurd rfl h | decide

namespace Parser

/-- No operator that the token stands for binds stronger than the strength. -/
def Weaker (s : Nat) (k : TokenKind) : Prop :=
  ∀ op, InfixOp.ofToken? k = some op →
    if op = .binary .exp then Level.exponentiation < s else op.level ≤ s

/-- An expression of the strength is read as a whole behind an operator of the level. -/
def Admits (s level : Nat) : Prop :=
  level < s ∨ level = Level.exponentiation ∧ s = Level.exponentiation

theorem Weaker.mono {s s' : Nat} {k : TokenKind} (h : Weaker s k) (hs : s ≤ s') : Weaker s' k := by
  intro op hop
  have hweaker := h op hop
  split at hweaker
  · rename_i hexp
    rw [if_pos hexp]
    omega
  · rename_i hexp
    rw [if_neg hexp]
    omega

/-- What binds no stronger than an operator is not taken behind it. -/
theorem Weaker.stops {level : Nat} {k : TokenKind} (h : Weaker level k)
    (hlevel : level ≤ Level.exponentiation) :
    ∀ op, InfixOp.ofToken? k = some op → op ≠ .binary .exp ∧ op.level ≤ level := by
  intro op hop
  have hweaker := h op hop
  split at hweaker
  · omega
  · rename_i hexp
    exact ⟨hexp, hweaker⟩

theorem Admits.le {s level : Nat} (h : Admits s level) : level ≤ s := by
  unfold Admits at h
  omega

/-- The left side of an operator is read where the operator is. -/
theorem Admits.left {s level : Nat} {op : InfixOp} (h : Admits op.level level)
    (hleft : Weaker s op.token) : Admits s level := by
  have hle := op.level_le
  have hweaker := hleft op op.ofToken?_token
  unfold Admits at h ⊢
  split at hweaker <;> omega

/-- The loop takes the operator. -/
theorem Admits.not_stop {level : Nat} {op : InfixOp} (h : Admits op.level level) :
    ¬(if op = .binary .exp then op.level < level else op.level ≤ level) := by
  unfold Admits at h
  split
  · omega
  · rename_i hexp
    have hne := InfixOp.level_ne hexp
    omega

theorem weaker_of_none {k : TokenKind} (h : InfixOp.ofToken? k = none) (s : Nat) : Weaker s k := by
  intro op hop
  rw [h] at hop
  cases hop

/-- The text is an expression of binary operators: what the loop can read from what it is read as,
it reads from its text. -/
structure AsBinary (s : Nat) (x : List Char) (Q : Tree → Prop) : Prop where
  begins : ∀ rest k, Behind rest k → Begins true x rest
  reads : ∀ level b d gap rest last k R, Admits s level → x.length < b → x.length ≤ d →
    (∀ c ∈ gap, isGap c = true) → Behind rest k → Weaker s k →
    (∀ t begin n opensParen, Q t → b ≤ n + x.length →
      Reads (binarySteps (rules b d) level begin n ⟨t, opensParen⟩) .module rest last R) →
    Reads (binaryRule (rules b d) level) .module (gap ++ (x ++ rest)) last R

section

variable {b d : Nat} {gap x rest : List Char} {k : TokenKind} {Q : Tree → Prop} {s : Nat}
  {sign : Option Char}

theorem AsUnary.asBinary (h : AsUnary sign x Q) (s : Nat) : AsBinary s x Q := by
  refine ⟨h.begins, ?_⟩
  intro level b d gap rest last k R _ hb hd hgap hrest _ hsteps
  obtain ⟨k₁, behind, hscans, hk₁⟩ := (h.begins rest k hrest).lead.first
  have hstarts := hscans.starts gap hgap
  refine .start_bind fun begin => .bind .context fun c _ => .kind_bind hstarts.opens ?_
  split
  · exact absurd rfl ((startsPlain_facts hk₁).2 _)
  · refine .bind (.atPunct hstarts.opens "(") fun opensParen _ => ?_
    refine .bind (Reads.hinted hstarts (h.reads b d gap rest k hb hd hgap hrest)) fun t ht => ?_
    rw [bound_rules]
    exact hsteps t begin b opensParen ht (by omega)

/-- The loop stops before what binds no stronger. -/
theorem reads_binarySteps_stop {level : Nat} (hrest : Behind rest k)
    (hk : ∀ op, InfixOp.ofToken? k = some op → op ≠ .binary .exp ∧ op.level ≤ level) {n : Nat}
    (hn : 1 ≤ n) ( begin : Nat) (o : Operand) :
    Reads (binarySteps (rules b d) level begin n o) .module rest rest (· = o.tree) := by
  obtain ⟨n, rfl⟩ := Nat.exists_eq_add_of_le' hn
  have hsteps := hrest.follower.facts.1
  refine .kind_bind hrest.opens ?_
  split
  · exact absurd (by decide) hsteps
  · exact absurd (by decide) hsteps
  · split
    · exact .pure rfl
    · rename_i op hop
      obtain ⟨hexp, hle⟩ := hk op hop
      have hstop : if op = .binary .exp then op.level < level else op.level ≤ level := by
        rwa [if_neg hexp]
      dsimp only
      rw [if_pos hstop]
      exact .pure rfl

theorem Reads.flawIf {flawed : Bool} {c : Context} {text : List Char} (h : flawed = false) :
    Reads (flawIf flawed) c text text fun _ => True := by
  rw [h]
  exact .flawIf_false

/-- Two operands with an operator between them. -/
theorem asBinary_sides {op : InfixOp} {sl sr : Nat} {xl xr : List Char} {Ql Qr : Tree → Prop}
    (hl : AsBinary sl xl Ql) (hr : AsBinary sr xr Qr) (hleft : Weaker sl op.token)
    (hright : Admits sr op.level)
    (hclash : ∀ l r p p', Ql l → Qr r → op.clashes ⟨l, p⟩ ⟨r, p'⟩ = false) :
    AsBinary op.level (xl ++ (spaced op.text ++ xr))
      fun t => ∃ s l r, Ql l ∧ Qr r ∧ t = .node op.label s [l, r] := by
  have hbegins (rest : List Char) : Begins true xl (spaced op.text ++ (xr ++ rest)) :=
    hl.begins _ _ (behind_operator op _)
  have hlength : (xl ++ (spaced op.text ++ xr)).length
      = xl.length + op.text.toList.length + xr.length + 2 := by
    simp [spaced]
    omega
  refine ⟨fun rest k _ => ?_, ?_⟩
  · have hlead : Lead true rest (xl ++ (spaced op.text ++ (xr ++ rest))) := by
      refine (hbegins rest).lead.extend (behind_operator op _).opens ?_
      rcases op with op | op <;> cases op <;> decide
    rw [← List.append_assoc (spaced op.text)] at hlead
    exact Begins.extend (by rw [List.append_assoc]; exact hbegins rest) hlead
  · intro level b d gap rest last k R hadmits hb hd hgap hrest hweaker hsteps
    rw [hlength] at hb hd
    obtain ⟨d, rfl⟩ := Nat.exists_eq_add_of_le' (show 1 ≤ d by omega)
    have hstarts := starts_operator op (xr ++ rest)
    obtain ⟨k₁, behind, hinner, -⟩ := (hr.begins rest k hrest).lead.first
    have hinner := (hinner.starts [' '] isGap_space).opens
    rw [List.append_assoc, List.append_assoc]
    refine hl.reads level b (d + 1) gap _ last _ R (hadmits.left hleft) (by omega) (by omega) hgap
      (behind_operator op _) hleft fun l begin n opensParen hl hn => ?_
    obtain ⟨n, rfl⟩ := Nat.exists_eq_add_of_le' (show 1 ≤ n by omega)
    -- The right side ends where the operator behind it binds no stronger.
    have hsecond :
        Reads (binaryRule (rules b d) op.level) .module ([' '] ++ (xr ++ rest)) rest Qr := by
      refine hr.reads op.level b d [' '] rest rest k Qr hright (by omega) (by omega) isGap_space
        hrest (hweaker.mono hright.le) fun r begin n opensParen hr hn => ?_
      refine (reads_binarySteps_stop hrest (hweaker.stops op.level_le) (by omega) begin _).mono ?_
      rintro _ rfl
      exact hr
    refine .kind_bind hstarts.opens ?_
    split
    · exact absurd (behind_operator op []).follower.facts.1 (by simp_all [steps])
    · exact absurd (behind_operator op []).follower.facts.1 (by simp_all [steps])
    · rw [InfixOp.ofToken?_token]
      dsimp only
      rw [if_neg hadmits.not_stop]
      refine .bind .context ?_
      rintro _ rfl
      rw [show (Context.module).allowIn = true from rfl, Bool.not_true, Bool.and_false,
        if_neg Bool.false_ne_true]
      refine .bind (.advanceKeyword hstarts hinner) fun _ _ => .bind (.atPunct hinner "(")
        fun opensParen' _ => .bind hsecond fun r hr => ?_
      have hnone := hclash l r opensParen opensParen' hl hr
      have hdone : Reads (do
          let e ← node op.label begin [l, r]
          binarySteps (rules b (d + 1)) level begin n ⟨e, opensParen⟩) .module rest last R := by
        refine .bind (.node _ _ _) ?_
        rintro _ ⟨s, rfl⟩
        exact hsteps _ begin n opensParen ⟨s, l, r, hl, hr, rfl⟩ (by omega)
      cases op with
      | binary op =>
        refine .bind (.flawIf hnone) fun _ _ => .bind (.pure (Q := (· = _)) rfl) ?_
        rintro _ rfl
        exact hdone
      | logical op =>
        refine .bind (.flawIf hnone) fun _ _ => .bind (.pure (Q := (· = _)) rfl) ?_
        rintro _ rfl
        exact hdone

end

end Parser

end Reactive.Script
