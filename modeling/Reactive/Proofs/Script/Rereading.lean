/-
  Printed plain expressions, read again.

  The text of a plain expression is read as the expression it was printed from, spans and
  parentheses aside, wherever its surroundings leave it whole. Each form of expression has a lemma
  that says so for its text, given it for the texts of its parts; the theorem is the induction over
  the forms.
-/
import Reactive.Proofs.Script.Operators

namespace Reactive.Script

open Reactive.Script.Parser Reactive.Script.Printer

namespace Parser

/-! ## Conditions and assignments -/

/-- What an assignment does behind its left side. -/
def behindLeft (r : Rules) ( begin : Nat) (left : Tree) (k : TokenKind) : Parser Tree := do
  match AssignOp.ofToken? k with
  | some op =>
    let target ← assignmentTarget op left
    advance
    let value ← r.assignment
    node (.assign op) begin [target, value]
  | none =>
    if ← eatPunct "?" then
      let yes ← within (fun c => { c with allowIn := true }) r.assignment
      expectPunct ":"
      let no ← r.assignment
      node .conditional begin [left, yes, no]
    else return left

section

variable {b d : Nat} {gap x rest last : List Char} {k : TokenKind} {Q Q' : Tree → Prop} {s : Nat}

/-- An expression without commas, from its left side on. -/
theorem Begins.reads_assignment (h : Begins true x rest) (hb : x.length < b) (hd : x.length ≤ d)
    (hgap : ∀ c ∈ gap, isGap c = true) (hopens : Opens rest k) (hk : k ≠ .punct "=>")
    (hleft : Reads (binaryRule (rules b d) Level.comma) .module (gap ++ (x ++ rest)) rest Q)
    (hbehind : ∀ begin left, Q left →
      Reads (behindLeft (rules b d) begin left k) .module rest last Q') :
    Reads (assignmentRule (rules b d)) .module (gap ++ (x ++ rest)) last Q' := by
  obtain ⟨k₁, behind, hscans, hk₁⟩ := h.lead.first
  have hstarts := hscans.starts gap hgap
  have hnone := (startsPlain_facts hk₁).1
  have hyield : Reads atYield .module (gap ++ (x ++ rest)) (gap ++ (x ++ rest)) (· = false) := by
    refine .bind (.atWord hstarts.opens "yield") ?_
    rintro _ rfl
    rw [decide_eq_false fun heq => hnone (by simp [heq, outsiders])]
    exact .pure rfl
  have hasync : Reads (asyncNameArrow? (rules b d)) .module (gap ++ (x ++ rest))
      (gap ++ (x ++ rest)) (· = none) := by
    refine .bind (.atWord hstarts.opens "async") ?_
    rintro _ rfl
    rw [decide_eq_false fun heq => hnone (by simp [heq, outsiders])]
    exact .pure rfl
  have hvalue : Reads (assignmentOrArrow (rules b d)) .module (gap ++ (x ++ rest)) last Q' := by
    refine .bind hasync ?_
    rintro _ rfl
    refine .bind (h.noArrow b d gap hb hd hgap) ?_
    rintro _ rfl
    refine .start_bind fun begin => .bind hleft fun left hl => .kind_bind hopens ?_
    split
    · exact absurd rfl hk
    · exact hbehind begin left hl
  refine .bind hyield ?_
  rintro _ rfl
  refine .bind (.plainToken hstarts) fun t ht => .bind hvalue fun e he => ?_
  rw [ht.2.2]
  exact .pure he

/-- The left side of an expression without commas. -/
theorem AsBinary.reads_left (h : AsBinary s x Q) (hs : Level.comma < s) (hb : x.length < b)
    (hd : x.length ≤ d) (hgap : ∀ c ∈ gap, isGap c = true) (hrest : Behind rest k)
    (hk : InfixOp.ofToken? k = none) :
    Reads (binaryRule (rules b d) Level.comma) .module (gap ++ (x ++ rest)) rest Q := by
  refine h.reads Level.comma b d gap rest rest k Q (.inl hs) hb hd hgap hrest (weaker_of_none hk s)
    fun t begin n opensParen ht hn => ?_
  refine (reads_binarySteps_stop hrest (fun op hop => ?_) (by omega) begin _).mono ?_
  · rw [hk] at hop
    cases hop
  · rintro _ rfl
    exact ht

theorem closings_facts (hk : k ∈ closings) : InfixOp.ofToken? k = none ∧ AssignOp.ofToken? k = none
    ∧ k ≠ .punct "?" ∧ k ≠ .punct "=>" := by
  simp only [closings, List.mem_cons, List.not_mem_nil, or_false] at hk
  rcases hk with rfl | rfl | rfl | rfl | rfl <;> exact ⟨rfl, rfl, by decide, by decide⟩

/-- Binary operators make an expression without commas. -/
theorem AsBinary.fits (h : AsBinary s x Q) (hs : Level.comma < s) : Entry.Fits (x, Q) := by
  refine ⟨fun rest k hrest => .plain (h.begins rest k hrest).lead, ?_⟩
  intro b d gap rest k hb hd hgap hrest hk
  obtain ⟨hnone, hassign, hquestion, harrow⟩ := closings_facts hk
  refine (h.begins rest k hrest).reads_assignment hb hd hgap hrest.opens harrow
    (h.reads_left hs hb hd hgap hrest hnone) fun begin left hleft => ?_
  unfold behindLeft
  rw [hassign]
  refine .bind (.eatPunct_other hrest.opens hquestion) ?_
  rintro _ rfl
  exact .pure hleft

/-- A condition that is a name is told from a parameter by what stands behind the question mark. -/
theorem Lead.test_of_question {tail text : List Char} (h : Lead true (spaced "?" ++ tail) text)
    (hopens : Opens (' ' :: tail) k) (hk : startsPlain true k = true) : Lead true rest text := by
  cases h with
  | fixed h hfixed => exact .fixed h hfixed
  | name hw h => exact .test hw h (starts_question tail) hopens hk
  | inside hw h hbehind hk' => exact .inside hw h hbehind hk'
  | test hw h hquestion htail hk' => exact .test hw h hquestion htail hk'

/-- An item of a list starts like an expression. -/
theorem Entry.Fits.opens {p : Entry} (h : p.Fits) (hrest : Behind rest k) :
    ∃ k₁, Opens (' ' :: (p.1 ++ rest)) k₁ ∧ startsPlain true k₁ = true := by
  obtain ⟨k₁, behind, hscans, hk₁⟩ := (h.leads rest k hrest).first
  exact ⟨k₁, (hscans.starts [' '] isGap_space).opens, hk₁⟩

/-- A condition with its two branches. -/
theorem fits_conditional {xt xy xn : List Char} {Qt Qy Qn : Tree → Prop} (ht : AsBinary s xt Qt)
    (hs : Level.comma < s) (hy : Entry.Fits (xy, Qy)) (hn : Entry.Fits (xn, Qn)) :
    Entry.Fits (xt ++ (spaced "?" ++ (xy ++ (spaced ":" ++ xn))), fun t => ∃ s t' y n,
      Qt t' ∧ Qy y ∧ Qn n ∧ t = .node .conditional s [t', y, n]) := by
  have htext (rest : List Char) : (xt ++ (spaced "?" ++ (xy ++ (spaced ":" ++ xn)))) ++ rest
      = xt ++ (spaced "?" ++ (xy ++ (spaced ":" ++ (xn ++ rest)))) := by
    simp
  have hlength : (xt ++ (spaced "?" ++ (xy ++ (spaced ":" ++ xn)))).length
      = xt.length + xy.length + xn.length + 6 := by
    simp [spaced]
    omega
  have hbegins (tail : List Char) : Begins true xt (spaced "?" ++ tail) :=
    ht.begins _ _ (behind_question tail)
  refine ⟨fun rest k hrest => ?_, ?_⟩
  · obtain ⟨k₁, hopens, hk₁⟩ := hy.opens (behind_colon (xn ++ rest))
    rw [htext]
    exact .plain ((hbegins _).lead.test_of_question hopens hk₁)
  · intro b d gap rest k hb hd hgap hrest hk
    rw [hlength] at hb hd
    obtain ⟨d, rfl⟩ := Nat.exists_eq_add_of_le' (show 1 ≤ d by omega)
    obtain ⟨k₁, hopens, hk₁⟩ := hy.opens (behind_colon (xn ++ rest))
    obtain ⟨k₂, hopens', hk₂⟩ := hn.opens hrest
    have hyes : AsAssignment xy Qy := hy.reads
    have hno : AsAssignment xn Qn := hn.reads
    rw [htext]
    refine (hbegins _).reads_assignment (by omega) (by omega) hgap (behind_question _).opens
      (by decide) (ht.reads_left hs (by omega) (by omega) hgap (behind_question _) rfl)
      fun begin t' ht' => ?_
    refine .bind (.eatPunct (starts_question _) hopens) ?_
    rintro _ rfl
    refine .bind (.within (hyes b d [' '] _ _ (by omega) (by omega) isGap_space (behind_colon _)
      (by decide))) fun y hy' => ?_
    refine .bind (.expectPunct (starts_colon _) hopens') fun _ _ => ?_
    refine .bind (hno b d [' '] rest k (by omega) (by omega) isGap_space hrest hk) fun n hn' => ?_
    refine (Reads.node _ _ _).mono ?_
    rintro _ ⟨s, rfl⟩
    exact ⟨s, t', y, n, ht', hy', hn', rfl⟩

/-- A variable or member is the target of an assignment as it is. -/
theorem reads_assignmentTarget {t : Tree} (ht : t.label.isReference = true) (op : AssignOp)
    (c : Context) (text : List Char) : Reads (assignmentTarget op t) c text text (· = t) := by
  have hsimple := reads_toSimpleTarget ht c text
  obtain ⟨l, s, cs⟩ := t
  have htarget : toTarget (.node l s cs) = toSimpleTarget (.node l s cs) := by
    obtain ⟨w, rfl⟩ | rfl | rfl := Label.isReference_cases ht <;> rw [toTarget] <;> simp
  cases op with
  | binary op => exact hsimple
  | plain => exact (show assignmentTarget .plain (.node l s cs) = _ from htarget) ▸ hsimple
  | logical op =>
    exact (show assignmentTarget (.logical op) (.node l s cs) = _ from htarget) ▸ hsimple

theorem assignOp_facts {op : AssignOp} (hop : AssignOp.ofToken? (.punct op.text) = some op) :
    InfixOp.ofToken? (.punct op.text) = none ∧ TokenKind.punct op.text ≠ .punct "=>"
      ∧ (op ≠ .plain → TokenKind.punct op.text
        ∉ [.punct ":", .punct "?", .punct ",", .punct "=", .punct ")"]) := by
  match op with
  | .plain => exact ⟨rfl, by decide, fun h => absurd rfl h⟩
  | .binary op =>
    cases op <;> first | exact ⟨rfl, by decide, fun _ => by decide⟩ | exact absurd hop (by decide)
  | .logical op => cases op <;> exact ⟨rfl, by decide, fun _ => by decide⟩

/-- An assignment. -/
theorem fits_assign {xt xv : List Char} {Qt Qv : Tree → Prop} {op : AssignOp}
    (ht : AsChain false xt Qt) (hQt : ∀ t, Qt t → t.label.isReference = true)
    (hv : Entry.Fits (xv, Qv)) (hop : AssignOp.ofToken? (.punct op.text) = some op) :
    Entry.Fits (xt ++ (spaced op.text ++ xv), fun t => ∃ s t' v,
      Qt t' ∧ Qv v ∧ t = .node (.assign op) s [t', v]) := by
  have htext (rest : List Char) : (xt ++ (spaced op.text ++ xv)) ++ rest
      = xt ++ (spaced op.text ++ (xv ++ rest)) := by
    simp
  have hlength : (xt ++ (spaced op.text ++ xv)).length
      = xt.length + op.text.toList.length + xv.length + 2 := by
    simp [spaced]
    omega
  obtain ⟨hnone, harrow, hplain⟩ := assignOp_facts hop
  have hvalue : AsAssignment xv Qv := hv.reads
  have htarget := (ht.asUnary none).asBinary Level.member
  have hbegins (tail : List Char) : Begins true xt (spaced op.text ++ tail) :=
    htarget.begins _ _ (behind_assign hop tail)
  refine ⟨fun rest k hrest => ?_, ?_⟩
  · obtain ⟨k₁, hopens, -⟩ := hv.opens hrest
    have hlead := (hbegins (xv ++ rest)).lead
    rw [htext]
    by_cases heq : op = .plain
    · subst heq
      cases hlead with
      | fixed h hk => exact .plain (.fixed h hk)
      | name hw h =>
        refine .assign hw h hopens (fun b d gap rest k hb hd hgap hrest hk => ?_) ?_
        · exact (hvalue b d gap rest k hb hd hgap hrest hk).mono fun _ _ => trivial
        · simp [spaced]
          omega
      | inside hw h hbehind hk => exact .plain (.inside hw h hbehind hk)
      | test hw h hquestion htail hk => exact .plain (.test hw h hquestion htail hk)
    · exact .plain (hlead.extend (behind_assign hop _).opens (hplain heq))
  · intro b d gap rest k hb hd hgap hrest hk
    rw [hlength] at hb hd
    obtain ⟨d, rfl⟩ := Nat.exists_eq_add_of_le' (show 1 ≤ d by omega)
    obtain ⟨k₁, hopens, -⟩ := hv.opens hrest
    have hvalue := hvalue b d [' '] rest k (by omega) (by omega) isGap_space hrest hk
    rw [htext]
    refine (hbegins _).reads_assignment (by omega) (by omega) hgap (behind_assign hop _).opens
      harrow (htarget.reads_left (by decide) (by omega) (by omega) hgap (behind_assign hop _) hnone)
      fun begin t' ht' => ?_
    unfold behindLeft
    rw [hop]
    refine .bind (reads_assignmentTarget (hQt t' ht') op _ _) ?_
    rintro _ rfl
    refine .bind (.advance (starts_assign hop _) hopens) fun _ _ => .bind hvalue fun v hv' => ?_
    refine (Reads.node _ _ _).mono ?_
    rintro _ ⟨s, rfl⟩
    exact ⟨s, _, v, ht', hv', rfl⟩

end

/-! ## Texts of a strength -/

/-- The text is an expression of the strength: it is read as one wherever its surroundings leave it
whole. -/
structure Fits (s : Nat) (number : Bool) (sign : Option Char) (x : List Char) (Q : Tree → Prop) :
    Prop where
  entry : Entry.Fits (x, Q)
  binary : Level.conditional < s → AsBinary s x Q
  unary : Level.exponentiation < s → AsUnary sign x Q
  chain : Level.postfixed < s → AsChain number x Q

section

variable {x : List Char} {Q Q' : Tree → Prop} {s : Nat} {sign : Option Char} {number : Bool}

theorem Entry.Fits.mono (h : Entry.Fits (x, Q)) (hQ : ∀ t, Q t → Q' t) : Entry.Fits (x, Q') :=
  ⟨h.leads, fun b d gap rest k hb hd hgap hrest hk =>
    (h.reads b d gap rest k hb hd hgap hrest hk).mono hQ⟩

theorem AsBinary.mono (h : AsBinary s x Q) (hQ : ∀ t, Q t → Q' t) : AsBinary s x Q' :=
  ⟨h.begins, fun level b d gap rest last k R hadmits hb hd hgap hrest hweaker hsteps =>
    h.reads level b d gap rest last k R hadmits hb hd hgap hrest hweaker fun t begin n p ht =>
      hsteps t begin n p (hQ t ht)⟩

theorem AsUnary.mono (h : AsUnary sign x Q) (hQ : ∀ t, Q t → Q' t) : AsUnary sign x Q' :=
  ⟨h.signed, h.begins, fun b d gap rest k hb hd hgap hrest =>
    (h.reads b d gap rest k hb hd hgap hrest).mono hQ⟩

/-- An operand is one before fewer texts. -/
theorem AsChain.mono {number' : Bool} (h : AsChain number x Q) (hQ : ∀ t, Q t → Q' t)
    (hnumber : number = true → number' = true) : AsChain number' x Q' :=
  have hends {rest : List Char} (hrest : Ends number' rest) : Ends number rest :=
    ⟨hrest.1, fun h => hrest.2 (hnumber h)⟩
  ⟨h.head, fun rest k hrest => h.begins rest k (hends hrest),
    fun b d gap rest last k begin origin R hb hd hgap hrest hopens hsteps =>
      h.reads b d gap rest last k begin origin R hb hd hgap (hends hrest) hopens
        fun t begin bound called calls ht => hsteps t begin bound called calls (hQ t ht)⟩

theorem AsChain.fits (h : AsChain number x Q) (s : Nat) (sign : Option Char) :
    Fits s number sign x Q :=
  have hunary (sign : Option Char) := h.asUnary sign
  ⟨((hunary none).asBinary Level.member).fits (by decide), fun _ => (hunary none).asBinary s,
    fun _ => hunary sign, fun _ => h⟩

theorem AsUnary.fits (h : AsUnary sign x Q) (hs : s ≤ Level.postfixed) (number : Bool) :
    Fits s number sign x Q :=
  ⟨(h.asBinary Level.member).fits (by decide), fun _ => h.asBinary s, fun _ => h, by omega⟩

theorem AsBinary.fitsBelow (h : AsBinary s x Q) (hs : Level.comma < s)
    (hs' : s ≤ Level.exponentiation) (number : Bool) (sign : Option Char) :
    Fits s number sign x Q :=
  ⟨h.fits hs, fun _ => h, fun hlt => absurd hlt (Nat.not_lt.mpr hs'),
    fun hlt => absurd hlt (Nat.not_lt.mpr (Nat.le_trans hs' (by decide)))⟩

theorem Entry.Fits.fitsBelow (h : Entry.Fits (x, Q)) (hs : s ≤ Level.conditional) (number : Bool)
    (sign : Option Char) : Parser.Fits s number sign x Q :=
  ⟨h, fun hlt => absurd hlt (Nat.not_lt.mpr hs),
    fun hlt => absurd hlt (Nat.not_lt.mpr (Nat.le_trans hs (by decide))),
    fun hlt => absurd hlt (Nat.not_lt.mpr (Nat.le_trans hs (by decide)))⟩

end

end Parser

/-! ## What expressions are read as -/

namespace Tree

/-- The tree is the expression, spans and parentheses aside. -/
def ReadAs (t t' : Tree) : Prop := t'.bare = t.bare ∧ t'.label = t.withoutParens.label

/-- The strength of an expression where its surroundings bind with a level. -/
def strengthAt (t : Tree) (level : Nat) : Nat :=
  if t.strength ≤ level then Level.member else t.strength

/-- The label that an expression is read with where its surroundings bind with a level. -/
def labelAt (t : Tree) (level : Nat) : Label :=
  if t.strength ≤ level then .paren else t.withoutParens.label

/-- The tree is the expression, read where its surroundings bind with a level. -/
def ReadAt (t : Tree) (level : Nat) (t' : Tree) : Prop :=
  t'.bare = t.bare ∧ t'.label = t.labelAt level

theorem lt_strengthAt {t : Tree} {level : Nat} (h : level < Level.member) :
    level < t.strengthAt level := by
  unfold strengthAt
  split
  · exact h
  · omega

theorem withoutParens_of_ne {l : Label} (h : l ≠ .paren) (s : Span) (cs : List Tree) :
    (node l s cs).withoutParens = node l s cs := by
  rw [withoutParens]
  rintro _ _ ⟨⟩
  exact absurd rfl h

/-- Nodes with the same label and children. -/
theorem readAs_node {l : Label} (hl : l ≠ .paren) {s s' : Span} {cs cs' : List Tree}
    (h : cs'.map bare = cs.map bare) : (node l s cs).ReadAs (node l s' cs') := by
  refine ⟨?_, ?_⟩
  · rw [bare_node, bare_node, h]
  · rw [withoutParens_of_ne hl]
    rfl

end Tree

/-- The labels of plain expressions, parentheses aside. -/
def Label.isPlain : Label → Bool
  | .identifier _ | .this | .null | .boolean _ | .number _ | .string _ => true
  | .member _ | .index _ | .call .. | .unary _ | .update .. | .binary _ | .logical _ => true
  | .conditional | .assign _ | .sequence => true
  | _ => false

theorem Plain.core_isPlain {t : Tree} (h : Plain t) : t.withoutParens.label.isPlain = true := by
  induction h with
  | paren h ih => rwa [Tree.withoutParens_paren]
  | keyword h =>
    simp only [keywordValues, List.mem_cons, Prod.mk.injEq, List.not_mem_nil, or_false] at h
    rcases h with ⟨rfl, rfl⟩ | ⟨rfl, rfl⟩ | ⟨rfl, rfl⟩ | ⟨rfl, rfl⟩ <;> rfl
  | _ => rfl

/-- A plain expression is no function that parentheses leave a mark on. -/
theorem Plain.markWrapped_readAs {t t' : Tree} (h : Plain t) (hread : t.ReadAs t') :
    markWrapped t' = t' := by
  have hplain := h.core_isPlain
  rw [← hread.2] at hplain
  obtain ⟨l, s, cs⟩ := t'
  cases l with
  | function => cases hplain
  | arrow => cases hplain
  | _ => rfl

/-- The text of an expression is read back as the expression. -/
structure Readable (t : Tree) : Prop where
  listed : ∃ p ps, t.spelling = itemList (((p :: ps) : List Entry).map (·.1))
    ∧ (∀ q ∈ p :: ps, q.Fits)
    ∧ ∀ s ts, Entry.Match (p :: ps) ts → (listed s ts).bare = t.bare ∧ (grouped s ts).bare = t.bare
  fits : Level.comma < t.strength → Fits t.strength t.isNumber t.sign? t.spelling t.ReadAs

/-- An expression that is no sequence. -/
theorem readable_of_fits {t : Tree} (hplain : Plain t)
    (h : Fits t.strength t.isNumber t.sign? t.spelling t.ReadAs) : Readable t := by
  refine ⟨⟨(t.spelling, t.ReadAs), [], ?_, ?_, ?_⟩, fun _ => h⟩
  · simp [itemList, furtherItems, led]
  · rintro q hq
    rw [List.mem_singleton.mp hq]
    exact h.entry
  · rintro s ts (_ | ⟨hread, ⟨⟩⟩)
    refine ⟨hread.1, ?_⟩
    rw [grouped, hplain.markWrapped_readAs hread]
    exact hread.1

/-- An expression is read back where its surroundings bind with a level: it stands in parentheses or
is strong enough. -/
theorem Readable.fitsAt {t : Tree} (h : Readable t) (level : Nat) (hlevel : Level.comma ≤ level) :
    Fits (t.strengthAt level) t.isNumber t.sign? (t.spellingAt level) (t.ReadAt level) := by
  by_cases hle : t.strength ≤ level
  · obtain ⟨p, ps, hspelling, hps, hbare⟩ := h.listed
    rw [Tree.spellingAt_of_le hle, hspelling]
    refine ((asChain_group hps).mono ?_ nofun).fits _ _
    rintro _ ⟨s, s', ts, hts, rfl⟩
    refine ⟨?_, (if_pos hle).symm⟩
    rw [Tree.bare_paren]
    exact (hbare s' ts hts).2
  · have hlt := Nat.not_le.mp hle
    have hread : t.ReadAt level = t.ReadAs := by
      funext t'
      rw [Tree.ReadAt, Tree.labelAt, if_neg hle, Tree.ReadAs]
    rw [Tree.spellingAt_of_lt hlt, Tree.strengthAt, if_neg hle, hread]
    exact h.fits (Nat.lt_of_le_of_lt hlevel hlt)

/-- An expression is a chain before a step. -/
theorem Readable.asChain {t : Tree} (h : Readable t) :
    AsChain t.isNumber (t.spellingAt Level.postfixed) (t.ReadAt Level.postfixed) :=
  (h.fitsAt _ (by decide)).chain (Tree.lt_strengthAt (by decide))

/-- An expression is a side of an operator that binds stronger than a condition. -/
theorem Readable.asBinary {t : Tree} (h : Readable t) {level : Nat}
    (hlow : Level.conditional ≤ level) (hhigh : level < Level.member) :
    AsBinary (t.strengthAt level) (t.spellingAt level) (t.ReadAt level) :=
  (h.fitsAt level (Nat.le_trans (by decide) hlow)).binary
    (Nat.lt_of_le_of_lt hlow (Tree.lt_strengthAt hhigh))

/-! ## The forms of expressions -/

section

variable {l : Label} {s : Span} {cs : List Tree} {x : List Char}

/-- A node that is no parenthesis and no sequence. -/
theorem readable_node (hplain : Plain (.node l s cs)) (hl : l ≠ .paren)
    (hspelling : spell l (cs.map fun t => (t, t.spelling)) = x)
    (h : Fits l.strength (Tree.node l s cs).isNumber l.sign? x (Tree.node l s cs).ReadAs) :
    Readable (.node l s cs) := by
  refine readable_of_fits hplain ?_
  have hcore := Tree.withoutParens_of_ne hl s cs
  rw [Tree.spelling_node, hspelling, Tree.strength, Tree.sign?, hcore]
  exact h

/-- A leaf. -/
theorem readable_leaf {number : Bool} (hplain : Plain (.node l s [])) (hl : l ≠ .paren)
    (hspelling : spell l [] = x) (h : AsChain number x fun t => ∃ s, t = .node l s [])
    (hnumber : number = true → (Tree.node l s []).isNumber = true) : Readable (.node l s []) := by
  refine readable_node hplain hl hspelling ((h.mono ?_ hnumber).fits _ _)
  rintro _ ⟨s', rfl⟩
  exact Tree.readAs_node hl rfl

end

theorem Readable.paren {t : Tree} (h : Readable t) (s : Span) : Readable (.node .paren s [t]) := by
  have hread : (Tree.node .paren s [t]).ReadAs = t.ReadAs := by
    funext t'
    rw [Tree.ReadAs, Tree.ReadAs, Tree.bare_paren, Tree.withoutParens_paren]
  obtain ⟨hlisted, hfits⟩ := h
  exact ⟨by simpa using hlisted, by simpa [hread] using hfits⟩

/-- The items that expressions make up where commas stand between them. -/
def entries (ts : List Tree) : List Entry :=
  ts.map fun t => (t.spellingAt Level.comma, t.ReadAt Level.comma)

theorem fits_entries {ts : List Tree} (h : ∀ t ∈ ts, Readable t) : ∀ q ∈ entries ts, q.Fits := by
  intro q hq
  obtain ⟨t, ht, rfl⟩ := List.mem_map.mp hq
  exact ((h t ht).fitsAt _ (Nat.le_refl _)).entry

theorem bare_of_match {ts ts' : List Tree} (h : Entry.Match (entries ts) ts') :
    ts'.map Tree.bare = ts.map Tree.bare := by
  induction ts generalizing ts' with
  | nil =>
    cases h
    rfl
  | cons t ts ih =>
    obtain _ | ⟨hread, hts⟩ := h
    rw [List.map_cons, List.map_cons, hread.1, ih hts]

theorem readable_member {o : Tree} {w : String} {s s' : Span} (h : Plain o) (ih : Readable o)
    (hnumber : o.isNumber = false) (hw : IsName w) :
    Readable (.node (.member false) s [o, .node (.word w) s' []]) := by
  have ho := ih.asChain
  rw [hnumber] at ho
  refine readable_node (x := o.spellingAt Level.postfixed ++ '.' :: w.toList) (.member h hnumber hw)
    nofun ?_ (((asChain_member ho hw).mono ?_ nofun).fits _ _)
  · simp [spell, Tree.spelling_node, Tree.spellingAt]
  · rintro _ ⟨s₁, s₂, o', ho', rfl⟩
    refine Tree.readAs_node (l := .member false) nofun ?_
    simp [ho'.1, Tree.bare_node]

theorem readable_index {o i : Tree} {s : Span} (h : Plain o) (ih : Readable o) (hi : Plain i)
    (ihi : Readable i) : Readable (.node (.index false) s [o, i]) := by
  have ho := ih.asChain
  obtain ⟨p, ps, hspelling, hps, hbare⟩ := ihi.listed
  refine readable_node (.index h hi) nofun ?_ (((asChain_index ho hps).mono ?_ nofun).fits _ _)
  · simp [spell, Tree.spellingAt, hspelling]
  · rintro _ ⟨s₁, o', i', ho', ⟨s₂, ts, hts, rfl⟩, rfl⟩
    refine Tree.readAs_node (l := .index false) nofun ?_
    simp [ho'.1, (hbare s₂ ts hts).1]

theorem readable_call {f : Tree} {args : List Tree} {s : Span} (h : Plain f) (ih : Readable f)
    (hargs : ∀ a ∈ args, Plain a) (ihargs : ∀ a ∈ args, Readable a) :
    Readable (.node (.call false false) s (f :: args)) := by
  have hf := ih.asChain
  refine readable_node (.call h hargs) nofun ?_
    (((asChain_call hf (fits_entries ihargs)).mono ?_ nofun).fits _ _)
  · simp [spell, Tree.spellingAt, entries, Function.comp_def]
  · rintro _ ⟨s₁, f', args', hf', hargs', rfl⟩
    refine Tree.readAs_node (l := .call false false) nofun ?_
    simp [hf'.1, bare_of_match hargs']

theorem readable_unary {op : UnaryOp} {t : Tree} {s : Span} (h : Plain t) (ih : Readable t) :
    Readable (.node (.unary op) s [t]) := by
  have ht := (ih.fitsAt Level.exponentiation (by decide)).unary
    (Tree.lt_strengthAt (by decide))
  refine readable_node (.unary h) nofun ?_
    (((asUnary_operator ht op).mono ?_).fits (Nat.le_of_ble_eq_true rfl) _)
  · simp [spell, Tree.spellingAt]
  · rintro _ ⟨s₁, t', ht', rfl⟩
    refine Tree.readAs_node (l := .unary op) nofun ?_
    simp [ht'.1]

/-- A variable or member holds together as strongly as can be. -/
theorem reference_facts {t : Tree} (h : t.label.isReference = true) :
    t.strength = Level.member ∧ t.isNumber = false ∧ t.withoutParens = t := by
  obtain ⟨l, s, cs⟩ := t
  have hl : l ≠ .paren := by
    rintro rfl
    cases h
  rw [Tree.strength, Tree.isNumber, Tree.withoutParens_of_ne hl]
  obtain ⟨w, rfl⟩ | rfl | rfl := Label.isReference_cases h <;> exact ⟨rfl, rfl, rfl⟩

/-- A variable or member is read back as one, at every level. -/
theorem Readable.reference {t : Tree} (h : Readable t) (ht : t.label.isReference = true) :
    AsChain false t.spelling fun t' => t'.bare = t.bare ∧ t'.label.isReference = true := by
  obtain ⟨hstrength, hnumber, hcore⟩ := reference_facts ht
  have hchain := (h.fits (by rw [hstrength]; decide)).chain (by rw [hstrength]; decide)
  rw [hnumber] at hchain
  refine hchain.mono (fun t' hread => ⟨hread.1, ?_⟩) nofun
  rw [hread.2, hcore]
  exact ht

theorem spellingAt_reference {t : Tree} (ht : t.label.isReference = true) (level : Nat)
    (hlevel : level < Level.member) : t.spellingAt level = t.spelling :=
  Tree.spellingAt_of_lt (by rw [(reference_facts ht).1]; exact hlevel)

theorem readable_update {op : UpdateOp} {before : Bool} {t : Tree} {s : Span} (h : Plain t)
    (ih : Readable t) (ht : t.label.isReference = true) :
    Readable (.node (.update op before) s [t]) := by
  have hreference := ih.reference ht
  have hread {before : Bool} (t' : Tree)
      (h : ∃ s₁ t₁, (t₁.bare = t.bare ∧ t₁.label.isReference = true)
        ∧ t' = .node (.update op before) s₁ [t₁]) :
      (Tree.node (.update op before) s [t]).ReadAs t' := by
    obtain ⟨s₁, t₁, ht₁, rfl⟩ := h
    refine Tree.readAs_node (l := .update op before) (by simp) ?_
    simp [ht₁.1]
  cases before with
  | true =>
    refine readable_node (.update h ht) (by simp) ?_
      (((asUnary_update (hreference.asUnary none) (fun _ h => h.2) op).mono hread).fits
        (Nat.le_of_ble_eq_true rfl) _)
    have hspelling := spellingAt_reference ht Level.prefixed (by decide)
    simpa [spell, Tree.spellingAt] using hspelling
  | false =>
    refine readable_node (.update h ht) (by simp) ?_
      (((asUnary_updated hreference (fun _ h => h.2) op _).mono hread).fits
        (Nat.le_of_ble_eq_true rfl) _)
    have hspelling := spellingAt_reference ht Level.postfixed (by decide)
    simpa [spell, Tree.spellingAt] using hspelling

theorem readable_conditional {a b c : Tree} {s : Span} (ha : Plain a) (iha : Readable a)
    (hb : Plain b) (ihb : Readable b) (hc : Plain c) (ihc : Readable c) :
    Readable (.node .conditional s [a, b, c]) := by
  have htest := iha.asBinary (Nat.le_refl Level.conditional) (by decide)
  have hyes := (ihb.fitsAt Level.yield (by decide)).entry
  have hno := (ihc.fitsAt Level.yield (by decide)).entry
  have hlow : Level.conditional < a.strengthAt Level.conditional := Tree.lt_strengthAt (by decide)
  have hstrong : Level.comma < a.strengthAt Level.conditional := Nat.lt_trans (by decide) hlow
  refine readable_node (.conditional ha hb hc) nofun ?_
    (((fits_conditional htest hstrong hyes hno).mono ?_).fitsBelow (Nat.le_of_ble_eq_true rfl) _ _)
  · simp [spell, Tree.spellingAt]
  · rintro _ ⟨s₁, a', b', c', ha', hb', hc', rfl⟩
    refine Tree.readAs_node (l := .conditional) nofun ?_
    simp [ha'.1, hb'.1, hc'.1]

theorem readable_assign {op : AssignOp} {t v : Tree} {s : Span} (ht : Plain t) (iht : Readable t)
    (hv : Plain v) (ihv : Readable v) (htarget : t.label.isReference = true)
    (hop : AssignOp.ofToken? (.punct op.text) = some op) :
    Readable (.node (.assign op) s [t, v]) := by
  have hvalue := (ihv.fitsAt Level.comma (by decide)).entry
  refine readable_node (.assign ht hv htarget hop) nofun ?_
    (((fits_assign (iht.reference htarget) (fun _ h => h.2) hvalue hop).mono ?_).fitsBelow
      (Nat.le_of_ble_eq_true rfl) _ _)
  · have hspelling := spellingAt_reference htarget Level.comma (by decide)
    simpa [spell, Tree.spellingAt] using hspelling
  · rintro _ ⟨s₁, t', v', ht', hv', rfl⟩
    refine Tree.readAs_node (l := .assign op) nofun ?_
    simp [ht'.1, hv'.1]

/-- The left side of `**` is read without a prefix operator before it. -/
theorem isPrefixed_left {a a' : Tree} (ha : Plain a)
    (hread : a.ReadAt (binaryLeftLevel .exp a) a') : isPrefixed a' = false := by
  have hplain := ha.core_isPlain
  have hlabel := hread.2
  rw [isPrefixed]
  unfold Tree.labelAt Tree.strength at hlabel
  split at hlabel
  · rw [hlabel]
  · rename_i hstrong
    rw [hlabel]
    split
    · rename_i op hop
      rw [binaryLeftLevel, hasPrefixOperator, hop] at hstrong
      exact absurd (Nat.le_of_ble_eq_true rfl) hstrong
    · rename_i hop
      rw [hop] at hplain
      cases hplain
    · rfl

/-- A side of `??` is read as no other logical operator. -/
theorem clash_side {a a' : Tree} (hread : a.ReadAt (logicalSideLevel .coalesce a) a')
    (op : LogicalOp) (h : a'.label = .logical op) : op = .coalesce := by
  have hlabel := hread.2
  rw [h] at hlabel
  unfold Tree.labelAt Tree.strength at hlabel
  split at hlabel
  · cases hlabel
  · rename_i hstrong
    unfold logicalSideLevel at hstrong
    rw [← hlabel] at hstrong
    cases op with
    | coalesce => rfl
    | or => exact absurd (by decide) hstrong
    | and => exact absurd (by decide) hstrong

theorem mixesCoalesce_eq_false {left right : Operand}
    (hleft : ∀ op, left.tree.label = .logical op → op = .coalesce)
    (hright : ∀ op, right.tree.label = .logical op → op = .coalesce) :
    mixesCoalesce left right = false := by
  unfold mixesCoalesce
  dsimp only
  split
  · rename_i clash hclash
    split at hclash
    · rename_i op hop
      cases hclash
      rw [hright op hop]
      rfl
    · cases hclash
  · split
    · rename_i op hop
      rw [hleft op hop]
      rfl
    · rfl

/-- The sides of a binary operator stand in parentheses unless they bind stronger; on the left of
most operators, as strong is enough. -/
theorem binary_levels (op : BinaryOp) (a : Tree) :
    (op.level ≤ binaryLeftLevel op a + 1 ∧ Level.conditional ≤ binaryLeftLevel op a
      ∧ binaryLeftLevel op a < Level.member)
    ∧ Level.conditional ≤ (binarySides op).2 ∧ (binarySides op).2 < Level.member := by
  cases op with
  | exp =>
    unfold binaryLeftLevel
    dsimp only
    split <;> decide
  | _ => exact ⟨⟨Nat.le_refl _, Nat.le_of_ble_eq_true rfl, Nat.le_of_ble_eq_true rfl⟩, by decide⟩

theorem exp_levels (a : Tree) : Level.exponentiation ≤ binaryLeftLevel .exp a := by
  unfold binaryLeftLevel
  dsimp only
  split <;> decide

theorem weaker_token {op : InfixOp} {s : Nat} (h : op.level ≤ s)
    (hexp : op = .binary .exp → Level.exponentiation < s) : Weaker s op.token := by
  intro op' hop'
  rw [InfixOp.ofToken?_token] at hop'
  cases hop'
  split
  · exact hexp ‹_›
  · exact h

/-- An operator with its sides, each written where its surroundings bind with a level. -/
theorem readable_infix (op : InfixOp) {a b : Tree} {s : Span} {left right : Nat}
    (hplain : Plain (.node op.label s [a, b])) (iha : Readable a) (ihb : Readable b)
    (hspelling : spell op.label [(a, a.spelling), (b, b.spelling)]
      = a.spellingAt left ++ (spaced op.text ++ b.spellingAt right))
    (hleft : Level.conditional ≤ left ∧ left < Level.member)
    (hright : Level.conditional ≤ right ∧ right < Level.member)
    (hweaker : Weaker (a.strengthAt left) op.token) (hadmits : Admits (b.strengthAt right) op.level)
    (hclash : ∀ l r p p', a.ReadAt left l → b.ReadAt right r →
      op.clashes ⟨l, p⟩ ⟨r, p'⟩ = false) :
    Readable (.node op.label s [a, b]) := by
  have hlabel : op.label ≠ .paren := by
    cases op <;> nofun
  have hstrength : op.label.strength = op.level := by
    cases op <;> rfl
  have hsides := asBinary_sides (iha.asBinary hleft.1 hleft.2) (ihb.asBinary hright.1 hright.2)
    hweaker hadmits hclash
  refine readable_node hplain hlabel hspelling ?_
  rw [hstrength]
  refine (hsides.mono ?_).fitsBelow op.comma_lt_level op.level_le _ _
  rintro _ ⟨s₁, l, r, hl, hr, rfl⟩
  refine Tree.readAs_node hlabel ?_
  simp [hl.1, hr.1]

theorem readable_binary {op : BinaryOp} {a b : Tree} {s : Span} (ha : Plain a) (iha : Readable a)
    (hb : Plain b) (ihb : Readable b) : Readable (.node (.binary op) s [a, b]) := by
  obtain ⟨⟨hlevel, hlow, hhigh⟩, hlow', hhigh'⟩ := binary_levels op a
  have hstrong := Tree.lt_strengthAt (t := a) hhigh
  have hstrong' := Tree.lt_strengthAt (t := b) hhigh'
  have hweaker : Weaker (a.strengthAt (binaryLeftLevel op a)) (InfixOp.binary op).token := by
    refine weaker_token (Nat.le_trans hlevel hstrong) fun heq => ?_
    cases heq
    exact Nat.lt_of_le_of_lt (exp_levels a) hstrong
  have hadmits : Admits (b.strengthAt (binarySides op).2) (InfixOp.binary op).level := by
    by_cases hexp : op = .exp
    · subst hexp
      obtain hlt | heq := Nat.lt_or_eq_of_le (show Level.exponentiation ≤ _ from hstrong')
      · exact .inl hlt
      · exact .inr ⟨rfl, heq.symm⟩
    · have hsides : (binarySides op).2 = op.level := by
        cases op <;> first | rfl | exact absurd rfl hexp
      exact .inl (hsides ▸ hstrong')
  have hclash (l r : Tree) (p p' : Bool) (hl : a.ReadAt (binaryLeftLevel op a) l)
      (_ : b.ReadAt (binarySides op).2 r) : (InfixOp.binary op).clashes ⟨l, p⟩ ⟨r, p'⟩ = false := by
    by_cases hexp : op = .exp
    · subst hexp
      exact isPrefixed_left ha hl
    · simp [InfixOp.clashes, hexp]
  refine readable_infix (.binary op) (.binary ha hb) iha ihb ?_ ⟨hlow, hhigh⟩
    ⟨hlow', hhigh'⟩ hweaker hadmits hclash
  simp [InfixOp.label, spell, Tree.spellingAt, InfixOp.text]

/-- A side of a logical operator stands in parentheses unless it is as strong. -/
theorem logical_level (op : LogicalOp) (a : Tree) : op.level ≤ logicalSideLevel op a + 1
    ∧ Level.conditional ≤ logicalSideLevel op a ∧ logicalSideLevel op a < Level.member := by
  have hlevel : op.level ≤ op.level - 1 + 1 ∧ Level.conditional ≤ op.level - 1
      ∧ op.level - 1 < Level.member := by
    cases op <;> decide
  unfold logicalSideLevel
  split
  · decide
  · decide
  · exact hlevel

/-- Only a logical operator is as strong as itself. -/
theorem Label.eq_logical {l : Label} {op : LogicalOp} (h : l.strength = op.level) :
    l = .logical op := by
  obtain ⟨hlow, hhigh⟩ := op.level_bounds
  unfold Label.strength at h
  split at h
  case h_4 op' => cases op <;> cases op' <;> first | rfl | exact absurd h (by decide)
  case h_5 op' =>
    have hle := op'.level_bounds.1
    rw [h] at hle
    exact absurd (Nat.le_trans hle hhigh) (by decide)
  case h_7 =>
    split at h
    · exact absurd (h ▸ hhigh) (by decide)
    · exact absurd (h ▸ hhigh) (by decide)
  case h_1 => exact absurd (h ▸ hlow) (by decide)
  case h_2 => exact absurd (h ▸ hlow) (by decide)
  case h_3 => exact absurd (h ▸ hlow) (by decide)
  all_goals exact absurd (h ▸ hhigh) (by decide)

theorem readable_logical {op : LogicalOp} {a b : Tree} {s : Span} (ha : Plain a) (iha : Readable a)
    (hb : Plain b) (ihb : Readable b) (hright : b.withoutParens.label ≠ .logical op) :
    Readable (.node (.logical op) s [a, b]) := by
  obtain ⟨hlevel, hlow, hhigh⟩ := logical_level op a
  obtain ⟨hlevel', hlow', hhigh'⟩ := logical_level op b
  have hstrong := Tree.lt_strengthAt (t := a) hhigh
  have hstrong' := Tree.lt_strengthAt (t := b) hhigh'
  have hweaker : Weaker (a.strengthAt (logicalSideLevel op a)) (InfixOp.logical op).token :=
    weaker_token (Nat.le_trans hlevel hstrong) nofun
  -- The right side is not as strong as the operator, since it would be the same one.
  have hadmits : Admits (b.strengthAt (logicalSideLevel op b)) (InfixOp.logical op).level := by
    refine .inl (Nat.lt_of_le_of_ne (Nat.le_trans hlevel' hstrong') fun heq => ?_)
    change op.level = _ at heq
    unfold Tree.strengthAt at heq
    split at heq
    · exact absurd (heq ▸ op.level_bounds.2) (by decide)
    · exact hright (Label.eq_logical heq.symm)
  have hclash (l r : Tree) (p p' : Bool) (hl : a.ReadAt (logicalSideLevel op a) l)
      (hr : b.ReadAt (logicalSideLevel op b) r) :
      (InfixOp.logical op).clashes ⟨l, p⟩ ⟨r, p'⟩ = false := by
    by_cases hop : op = .coalesce
    · subst hop
      exact mixesCoalesce_eq_false (clash_side hl) (clash_side hr)
    · simp [InfixOp.clashes, hop]
  refine readable_infix (.logical op) (.logical ha hb hright) iha ihb ?_ ⟨hlow, hhigh⟩
    ⟨hlow', hhigh'⟩ hweaker hadmits hclash
  simp [InfixOp.label, spell, Tree.spellingAt, InfixOp.text]

/-- Only a sequence is as weak as a comma. -/
theorem Label.comma_lt_strength {l : Label} (h : l ≠ .sequence) : Level.comma < l.strength := by
  unfold Label.strength
  split
  case h_1 => exact absurd rfl h
  case h_4 op => exact Nat.lt_of_lt_of_le (by decide) op.level_bounds.1
  case h_5 op => exact Nat.lt_of_lt_of_le (by decide) op.level_bounds.1
  case h_7 => split <;> decide
  all_goals decide

theorem readable_sequence {t t' : Tree} {ts : List Tree} {s : Span}
    (ih : ∀ x ∈ t :: t' :: ts, Readable x)
    (hflat : ∀ x ∈ t :: t' :: ts, x.withoutParens.label ≠ .sequence) :
    Readable (.node .sequence s (t :: t' :: ts)) := by
  have hspelling (x : Tree) (hx : x ∈ t :: t' :: ts) : x.spelling = x.spellingAt Level.comma :=
    (Tree.spellingAt_of_lt (Label.comma_lt_strength (hflat x hx))).symm
  refine ⟨⟨_, _, ?_, fits_entries ih, ?_⟩, fun h => absurd h (Nat.lt_irrefl _)⟩
  · rw [Tree.spelling_node]
    have hmap := List.map_congr_left hspelling
    simpa [spell, entries, Function.comp_def] using congrArg itemList hmap
  · intro s₁ us hus
    have hbare := bare_of_match (show Entry.Match (entries (t :: t' :: ts)) us from hus)
    obtain _ | ⟨-, _ | ⟨-, _⟩⟩ := id hus
    rename_i u u' us _
    have hwhole : (Tree.node .sequence s₁ (u :: u' :: us)).bare
        = (Tree.node .sequence s (t :: t' :: ts)).bare := by
      rw [Tree.bare_node, Tree.bare_node, hbare]
    exact ⟨hwhole, hwhole⟩

/-- Every plain expression is read back from its text. -/
theorem readable_of_plain {t : Tree} (h : Plain t) : Readable t := by
  induction h with
  | name hw => exact readable_leaf (.name hw) (by simp) rfl (asChain_name hw) (by simp)
  | @keyword l w s h =>
    have hplain : Plain (.node l s []) := .keyword h
    have hchain := asChain_keyword h
    simp only [keywordValues, List.mem_cons, Prod.mk.injEq, List.not_mem_nil, or_false] at h
    rcases h with ⟨rfl, rfl⟩ | ⟨rfl, rfl⟩ | ⟨rfl, rfl⟩ | ⟨rfl, rfl⟩ <;>
      exact readable_leaf hplain (by simp) rfl hchain (by simp)
  | number h => exact readable_leaf (.number h) (by simp) rfl (asChain_number h) fun _ => rfl
  | string h => exact readable_leaf (.string h) (by simp) rfl (asChain_string h) (by simp)
  | paren h ih => exact ih.paren _
  | member h hnumber hw ih => exact readable_member h ih hnumber hw
  | index h hi ih ihi => exact readable_index h ih hi ihi
  | call h hargs ih ihargs => exact readable_call h ih hargs ihargs
  | unary h ih => exact readable_unary h ih
  | update h ht ih => exact readable_update h ih ht
  | binary ha hb iha ihb => exact readable_binary ha iha hb ihb
  | logical ha hb hright iha ihb => exact readable_logical ha iha hb ihb hright
  | conditional ha hb hc iha ihb ihc => exact readable_conditional ha iha hb ihb hc ihc
  | assign ht hv htarget hop iht ihv => exact readable_assign ht iht hv ihv htarget hop
  | sequence h hflat ih => exact readable_sequence ih hflat

end Reactive.Script
