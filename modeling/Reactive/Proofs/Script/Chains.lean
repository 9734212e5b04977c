/-
  Operands of plain expressions.

  An operand starts with a name, a literal or a parenthesis, and goes on with members, indices and
  calls. The parser reads these steps in two loops, so what is said about an operand is what it
  leaves to the loops: whatever they can read from the operand on, they read from its text.
-/
import Reactive.Proofs.Script.Grouping

namespace Reactive.Script.Parser

/-! ## Where an expression begins -/

/-- How an expression begins: by a known token, and not like an arrow. -/
structure Begins (prefixed : Bool) (x rest : List Char) : Prop where
  lead : Lead prefixed rest (x ++ rest)
  noArrow : ∀ b d gap, x.length < b → x.length ≤ d → (∀ c ∈ gap, isGap c = true) →
    Reads (parenArrow? (rules b d)) .module (gap ++ (x ++ rest)) (gap ++ (x ++ rest)) (· = none)

section

variable {prefixed : Bool} {x rest : List Char} {k : TokenKind}

/-- What starts with a token that is no parenthesis is no arrow. -/
theorem begins_of_lead {behind : List Char} (h : Lead prefixed rest (x ++ rest))
    (hscans : Scans (x ++ rest) k behind) (hasync : k ≠ .word "async") (hparen : k ≠ .punct "(") :
    Begins prefixed x rest := by
  refine ⟨h, fun b d gap _ _ hgap => ?_⟩
  have hopens := (hscans.starts gap hgap).opens
  refine .start_bind fun begin => .bind (.atWord hopens "async") ?_
  rintro _ rfl
  rw [decide_eq_false hasync]
  refine .bind (.atPunct hopens "(") ?_
  rintro _ rfl
  rw [decide_eq_false hparen]
  exact .pure rfl

/-- What an expression begins with, a longer one begins with. -/
theorem Begins.extend {tail : List Char} {prefixed' : Bool} (h : Begins prefixed x (tail ++ rest))
    (hlead : Lead prefixed' rest (x ++ (tail ++ rest))) : Begins prefixed' (x ++ tail) rest := by
  refine ⟨by rwa [List.append_assoc], fun b d gap hb hd hgap => ?_⟩
  rw [List.length_append] at hb hd
  rw [List.append_assoc]
  exact h.noArrow b d gap (by omega) (by omega) hgap

theorem startsFixed_mono {k : TokenKind} (h : startsFixed false k = true) :
    startsFixed true k = true := by
  cases k with
  | word w => exact Bool.or_eq_true_iff.mpr (.inl (by simpa [startsFixed] using h))
  | punct p => exact Bool.or_eq_true_iff.mpr (.inl (by simpa [startsFixed] using h))
  | string v => rfl
  | number v => rfl
  | _ => cases h

theorem Lead.mono {text : List Char} (h : Lead false rest text) : Lead true rest text := by
  cases h with
  | fixed h hk => exact .fixed h (startsFixed_mono hk)
  | name hw h => exact .name hw h
  | inside hw h hbehind hk => exact .inside hw h hbehind hk
  | test hw h hquestion htail hk => exact .test hw h hquestion htail hk

theorem Begins.mono (h : Begins false x rest) : Begins true x rest := ⟨h.lead.mono, h.noArrow⟩

end

/-! ## Lists of expressions -/

/-- An item of a list: a text, and what it is read as. -/
abbrev Entry := List Char × (Tree → Prop)

/-- The item is an expression without commas of its own. -/
structure Entry.Fits (p : Entry) : Prop where
  leads : Leads p.1
  reads : AsAssignment p.1 p.2

/-- The rule reads the item. -/
def Entry.ReadBy (p : Entry) (rule : Parser Tree) : Prop :=
  ∀ gap rest k, (∀ c ∈ gap, isGap c = true) → Behind rest k → k ∈ closings →
    Reads rule .module (gap ++ (p.1 ++ rest)) rest p.2

/-- The trees are what the items are read as. -/
def Entry.Match (ps : List Entry) (ts : List Tree) : Prop := List.Forall₂ (fun p t => p.2 t) ps ts

section

variable {b d : Nat} {p : Entry} {ps : List Entry} {rest : List Char}

/-- The first token of an item. -/
theorem Leads.opens {x : List Char} {k : TokenKind} (h : Leads x) (hrest : Behind rest k)
    {gap : List Char} (hgap : ∀ c ∈ gap, isGap c = true) :
    ∃ k₁, Opens (gap ++ (x ++ rest)) k₁ ∧ k₁ ∉ outsiders := by
  obtain ⟨k₁, behind, hscans, hk₁⟩ := (h rest k hrest).first
  exact ⟨k₁, (hscans.starts gap hgap).opens, (startsPlain_facts hk₁).1⟩

theorem Entry.Fits.readBy_argument (h : p.Fits) (hb : p.1.length < b) (hd : p.1.length ≤ d) :
    p.ReadBy (argumentRule (rules b (d + 1))) := by
  intro gap rest k hgap hrest hk
  obtain ⟨k₁, hopens, hk₁⟩ := h.leads.opens hrest hgap
  refine .bind (.atPunct hopens "...") ?_
  rintro _ rfl
  rw [decide_eq_false fun heq => hk₁ (by simp [heq, outsiders])]
  exact h.reads b d gap rest k hb hd hgap hrest hk

theorem Entry.Fits.readBy_assignment (h : p.Fits) (hb : p.1.length < b) (hd : p.1.length ≤ d) :
    p.ReadBy (rules b (d + 1)).assignment :=
  fun gap rest k hgap hrest hk => h.reads b d gap rest k hb hd hgap hrest hk

theorem closings_of_separator {k : TokenKind} (h : k ∈ [.punct ",", .punct ")"]) :
    k ∈ closings := by
  simp only [List.mem_cons, List.not_mem_nil, or_false] at h
  rcases h with rfl | rfl <;> decide

/-- The items of a list behind the first one. -/
theorem reads_furtherEntries {rule : Parser Tree} (hps : ∀ p ∈ ps, Leads p.1 ∧ p.ReadBy rule)
    (n : Nat) (rest : List Char) :
    Reads (commaList ")" rule (ps.length + n + 1) false) .module
      (furtherItems (ps.map (·.1)) ++ ')' :: rest) (')' :: rest)
      fun r => Entry.Match ps r.1 ∧ r.2 = false := by
  induction ps with
  | nil =>
    rw [List.length_nil, Nat.zero_add]
    refine .bind (.atPunct (starts_close rest).opens ")") ?_
    rintro _ rfl
    rw [decide_eq_true rfl]
    exact .pure ⟨.nil, rfl⟩
  | cons p ps ih =>
    obtain ⟨hlead, hreads⟩ := hps p List.mem_cons_self
    obtain ⟨k, hk, hbehind⟩ := behind_furtherItems (ps.map (·.1)) rest
    obtain ⟨k₁, hopens, hk₁⟩ := hlead.opens hbehind isGap_space
    have htext : furtherItems ((p :: ps).map (·.1)) ++ ')' :: rest
        = ',' :: ([' '] ++ (p.1 ++ (furtherItems (ps.map (·.1)) ++ ')' :: rest))) := by
      simp [furtherItems, led]
    rw [htext, List.length_cons, Nat.add_right_comm _ 1 n]
    refine .bind (.atPunct (starts_comma _).opens ")") ?_
    rintro _ rfl
    rw [decide_eq_false (by decide)]
    refine .bind (.expectPunct (starts_comma _) hopens) fun _ _ => .bind (.atPunct hopens ")") ?_
    rintro _ rfl
    rw [decide_eq_false fun heq => hk₁ (by simp [heq, outsiders])]
    refine .bind (hreads [' '] _ k isGap_space hbehind (closings_of_separator hk)) fun t ht => ?_
    refine .bind (ih fun q hq => hps q (List.mem_cons_of_mem _ hq)) ?_
    rintro ⟨ts, trailing⟩ ⟨hts, rfl⟩
    exact .pure ⟨.cons ht hts, rfl⟩

/-- A list of items up to the parenthesis that closes it. -/
theorem reads_entries {rule : Parser Tree} (hps : ∀ p ∈ ps, Leads p.1 ∧ p.ReadBy rule)
    (n : Nat) (rest : List Char) :
    (∃ k, Opens (itemList (ps.map (·.1)) ++ ')' :: rest) k)
    ∧ Reads (commaList ")" rule (ps.length + n + 1) true) .module
      (itemList (ps.map (·.1)) ++ ')' :: rest) (')' :: rest)
      fun r => Entry.Match ps r.1 ∧ r.2 = false := by
  cases ps with
  | nil =>
    rw [List.length_nil, Nat.zero_add]
    refine ⟨⟨_, (starts_close rest).opens⟩, .bind (.atPunct (starts_close rest).opens ")") ?_⟩
    rintro _ rfl
    rw [decide_eq_true rfl]
    exact .pure ⟨.nil, rfl⟩
  | cons p ps =>
    obtain ⟨hlead, hreads⟩ := hps p List.mem_cons_self
    obtain ⟨k, hk, hbehind⟩ := behind_furtherItems (ps.map (·.1)) rest
    obtain ⟨k₁, hopens, hk₁⟩ := hlead.opens hbehind (List.forall_mem_nil _)
    have htext : itemList ((p :: ps).map (·.1)) ++ ')' :: rest
        = [] ++ (p.1 ++ (furtherItems (ps.map (·.1)) ++ ')' :: rest)) := by
      simp [itemList]
    rw [htext, List.length_cons, Nat.add_right_comm _ 1 n]
    refine ⟨⟨k₁, hopens⟩, .bind (.atPunct hopens ")") ?_⟩
    rintro _ rfl
    rw [decide_eq_false fun heq => hk₁ (by simp [heq, outsiders])]
    refine .bind (.atPunct hopens ")") fun _ _ => ?_
    refine .bind (hreads [] _ k (by simp) hbehind (closings_of_separator hk)) fun t ht => ?_
    refine .bind (reads_furtherEntries (fun q hq => hps q (List.mem_cons_of_mem _ hq)) n rest) ?_
    rintro ⟨ts, trailing⟩ ⟨hts, rfl⟩
    exact .pure ⟨.cons ht hts, rfl⟩

end

/-! ## Chains of steps -/

/-- What a number, or something else, ends before. -/
def Ends (number : Bool) (rest : List Char) : Prop :=
  EndsName rest ∧ (number = true → EndsNumber rest)

/-- Calls behind the member steps of an operand, from the parenthesis on. -/
def callTail (r : Rules) ( begin bound : Nat) (callee : Tree) (optional : Bool) :
    Parser (Tree × Bool) := do
  let question ← eatPunct "?."
  if ← eatPunct "(" then
    let (items, _) ← bracketed (commaList ")" (argumentRule r) r.bound true)
    expectPunct ")"
    let c ← node (.call question false) begin (callee :: items)
    callSteps r begin bound c (optional || question)
  else
    if question then unexpected
    return (callee, optional)

theorem callSteps_succ (r : Rules) ( begin bound : Nat) (callee : Tree) (optional : Bool) :
    callSteps r begin (bound + 1) callee optional
      = memberSteps r begin r.bound callee optional
        >>= fun x => callTail r begin bound x.1 x.2 := rfl

/-- What follows the member steps of an operand: before the first call, further ones are looked
for. -/
def furtherCalls (r : Rules) (origin : Nat) (called : Bool) (bound : Nat) (x : Tree × Bool) :
    Parser (Tree × Bool) :=
  if called then callTail r origin bound x.1 x.2 else callSteps r origin bound x.1 x.2

/-- The steps of an operand from a tree on. -/
def chainFrom (r : Rules) ( begin bound origin : Nat) (called : Bool) (calls : Nat) (t : Tree) :
    Parser (Tree × Bool) :=
  memberSteps r begin bound t false >>= furtherCalls r origin called calls

/-- The text is an operand: what the steps behind it can read from what it is read as, they read
from its text. -/
structure AsChain (number : Bool) (x : List Char) (Q : Tree → Prop) : Prop where
  head : ∃ c y, x = c :: y ∧ c ∉ ['=', '+', '-']
  begins : ∀ rest k, Ends number rest → Opens rest k → k ≠ .punct "=>" → Begins false x rest
  reads : ∀ b d gap rest last k begin origin R, x.length < b → x.length ≤ d →
    (∀ c ∈ gap, isGap c = true) → Ends number rest → Opens rest k →
    (∀ t begin bound called calls, Q t → b ≤ bound + x.length → b ≤ calls + x.length →
      Reads (chainFrom (rules b d) begin bound origin called calls t) .module rest last R) →
    Reads (primaryRule (rules b d) >>= chainFrom (rules b d) begin b origin false b) .module
      (gap ++ (x ++ rest)) last R

section

variable {b d : Nat} {x rest last : List Char} {k : TokenKind} {Q : Tree → Prop}
  {R : Tree × Bool → Prop} {number called : Bool}

/-- No member step follows. -/
theorem reads_noStep {r : Rules} (h : Opens rest k) (hk : k ∉ [.punct ".", .punct "[", .punct "?."])
    (htemplate : ∀ raw valid last, k ≠ .template raw valid last) ( begin bound : Nat) (t : Tree) :
    Reads (memberSteps r begin (bound + 1) t false) .module rest rest (· = (t, false)) := by
  refine .kind_bind h ?_
  split
  · exact absurd hk (by decide)
  · exact absurd hk (by decide)
  · exact absurd hk (by decide)
  · exact absurd rfl (htemplate _ _ _)
  · exact .pure rfl

/-- An operand that no step follows is one. -/
theorem reads_chainFrom_end (hopens : Opens rest k) (hsteps : k ∉ steps)
    (htemplate : ∀ raw valid last, k ≠ .template raw valid last) {bound calls : Nat} (hb : 1 ≤ b)
    (hbound : 1 ≤ bound) (hcalls : 1 ≤ calls) ( begin origin : Nat) (called : Bool) (t : Tree) :
    Reads (chainFrom (rules b d) begin bound origin called calls t) .module rest rest
      (· = (t, false)) := by
  have hnone : k ∉ [.punct ".", .punct "[", .punct "?."] := fun hmem => hsteps (by
    simp only [List.mem_cons, List.not_mem_nil, or_false] at hmem
    simp [steps]
    tauto)
  obtain ⟨b, rfl⟩ := Nat.exists_eq_add_of_le' hb
  obtain ⟨bound, rfl⟩ := Nat.exists_eq_add_of_le' hbound
  obtain ⟨calls, rfl⟩ := Nat.exists_eq_add_of_le' hcalls
  have htail (bound : Nat) :
      Reads (callTail (rules (b + 1) d) origin bound t false) .module rest rest
        (· = (t, false)) := by
    refine .bind (.eatPunct_other hopens fun heq => hsteps (by simp [heq, steps])) ?_
    rintro _ rfl
    refine .bind (.eatPunct_other hopens fun heq => hsteps (by simp [heq, steps])) ?_
    rintro _ rfl
    exact .pure rfl
  refine .bind (reads_noStep hopens hnone htemplate begin bound t) ?_
  rintro _ rfl
  cases called with
  | true => exact htail _
  | false =>
    show Reads (callSteps (rules (b + 1) d) origin (calls + 1) t false) _ _ _ _
    rw [callSteps_succ, bound_rules]
    refine .bind (reads_noStep hopens hnone htemplate origin b t) ?_
    rintro _ rfl
    exact htail _

/-! ### Leaves -/

/-- An operand of one token. -/
theorem asChain_leaf (k₁ : TokenKind) (hhead : ∃ c y, x = c :: y ∧ c ∉ ['=', '+', '-'])
    (hscans : ∀ rest, Ends number rest → Scans (x ++ rest) k₁ rest)
    (hlead : ∀ rest, Scans (x ++ rest) k₁ rest → Lead false rest (x ++ rest))
    (hasync : k₁ ≠ .word "async") (hparen : k₁ ≠ .punct "(")
    (hprimary : ∀ (r : Rules) text rest k, Starts text k₁ rest → Opens rest k →
      Reads (primaryRule r) .module text rest Q) : AsChain number x Q := by
  refine ⟨hhead, fun rest k hrest hopens _ => ?_, ?_⟩
  · exact begins_of_lead (hlead rest (hscans rest hrest)) (hscans rest hrest) hasync hparen
  · intro b d gap rest last k begin origin R hb hd hgap hrest hopens hsteps
    refine .bind (hprimary _ _ rest k ((hscans rest hrest).starts gap hgap) hopens) fun t ht => ?_
    exact hsteps t begin b false b ht (by omega) (by omega)

theorem head_of_name {w : String} (hw : IsName w) :
    ∃ c y, w.toList = c :: y ∧ c ∉ ['=', '+', '-'] := by
  obtain ⟨c, cs, hcs, hfirst, -⟩ := hw.exists_cons
  refine ⟨c, cs, hcs, fun hmem => ?_⟩
  have hnone : ∀ c ∈ ['=', '+', '-'], isNameStart c = false :=
    List.all_iff_forall_prop.mp (by decide)
  rw [hnone c hmem] at hfirst
  cases hfirst

theorem IsVariable.opensName {w : String} (hw : IsVariable w) : opensName w = true := by
  have hplain := hw.plain
  simp [Parser.opensName, hplain]

theorem asChain_name {w : String} (hw : IsVariable w) :
    AsChain false w.toList fun t => ∃ s, t = .node (.identifier w) s [] := by
  refine asChain_leaf (.word w) (head_of_name hw.name)
    (fun rest hrest => scans_name hw.name rest hrest.1) (fun rest h => .name hw.opensName h) ?_
    nofun fun r text rest k h hrest => reads_primary_word hw h hrest _
  rintro ⟨⟩
  exact absurd hw.plain (by decide)

/-- A leaf made of a keyword. -/
theorem reads_keywordLeaf {w : String} {text : List Char} (h : Starts text (.word w) rest)
    (hrest : Opens rest k) (l : Label) :
    Reads (keywordLeaf l) .module text rest fun t => ∃ s, t = .node l s [] :=
  .bind (.token h.opens) fun _ _ => .bind (.advanceKeyword h hrest) fun _ _ => .pure ⟨_, rfl⟩

theorem asChain_keyword {l : Label} {w : String} (h : (l, w) ∈ keywordValues) :
    AsChain false w.toList fun t => ∃ s, t = .node l s [] := by
  have hname : IsName w := by
    have hall : ∀ p ∈ keywordValues, IsName p.2 := by decide
    exact hall (l, w) h
  have hscans (rest : List Char) (hrest : Ends false rest) := scans_name hname rest hrest.1
  simp only [keywordValues, List.mem_cons, Prod.mk.injEq, List.not_mem_nil, or_false] at h
  rcases h with ⟨rfl, rfl⟩ | ⟨rfl, rfl⟩ | ⟨rfl, rfl⟩ | ⟨rfl, rfl⟩
  · exact asChain_leaf _ (head_of_name hname) hscans (fun rest h => .name rfl h) (by decide) (by simp)
      fun r text rest k h hrest =>
        .start_bind fun _ => .kind_bind h.opens (reads_keywordLeaf h hrest _)
  all_goals
    exact asChain_leaf _ (head_of_name hname) hscans (fun rest h => .fixed h (by decide))
      (by decide) (by simp) fun r text rest k h hrest =>
        .start_bind fun _ => .kind_bind h.opens (reads_keywordLeaf h hrest _)

theorem asChain_number {n : Nat} (hn : n < 1000) :
    AsChain true (Number.ofNat n).text fun t => ∃ s, t = .node (.number (Number.ofNat n)) s [] := by
  have hhead : ∃ c y, (Number.ofNat n).text = c :: y ∧ c ∉ ['=', '+', '-'] := by
    rw [Number.text_ofNat hn]
    obtain ⟨c, ds, hds⟩ := List.exists_cons_of_ne_nil (Nat.toDigits_ne_nil (n := n) (b := 10))
    refine ⟨c, ds, hds, fun hmem => ?_⟩
    have hnone : ∀ c ∈ ['=', '+', '-'], c.isDigit = false :=
      List.all_iff_forall_prop.mp (by decide)
    have hdigit : c.isDigit = true := Nat.isDigit_of_mem_toDigits (n := n) (b := 10) (by decide)
      (by decide) (hds ▸ List.mem_cons_self)
    rw [hnone c hmem] at hdigit
    cases hdigit
  exact asChain_leaf _ hhead (fun rest hrest => scans_number hn (hrest.2 rfl))
    (fun rest h => .fixed h rfl) nofun nofun fun r text rest k h hrest =>
      .start_bind fun _ => .kind_bind h.opens <|
        .bind (.token h.opens) fun _ _ => .bind (.advance h hrest) fun _ _ => .pure ⟨_, rfl⟩

theorem asChain_string {v : List Nat} (hv : ∀ n ∈ v, n.isValidChar) :
    AsChain false ('"' :: (Printer.guardClosingTag (Printer.stringText v) ++ ['"']))
      fun t => ∃ s, t = .node (.string v) s [] :=
  asChain_leaf _ ⟨_, _, rfl, by decide⟩ (fun rest _ => scans_string hv rest)
    (fun rest h => .fixed h rfl) nofun nofun fun r text rest k h hrest =>
      reads_primary_string h hrest _

/-! ### Parentheses -/

/-- What stands in parentheses: one expression, or a sequence of them. -/
def grouped (s : Span) : List Tree → Tree
  | [t] => markWrapped t
  | ts => .node .sequence s ts

/-- The tree is a parenthesis around the items. -/
def Entry.Group (ps : List Entry) (t : Tree) : Prop :=
  ∃ s s' ts, Entry.Match ps ts ∧ t = .node .paren s [grouped s' ts]

theorem enclosed_append (x rest : List Char) : enclosed x ++ rest = '(' :: (x ++ ')' :: rest) := by
  simp [enclosed]

/-- There are not more items than characters, and none is longer than all of them. -/
theorem length_entries (ps : List Entry) :
    ps.length ≤ (itemList (ps.map (·.1))).length + 1
      ∧ ∀ p ∈ ps, p.1.length ≤ (itemList (ps.map (·.1))).length := by
  obtain ⟨hcount, hlengths⟩ := length_itemList (ps.map (·.1))
  rw [List.length_map] at hcount
  exact ⟨hcount, fun p hp => hlengths p.1 (List.mem_map_of_mem hp)⟩

theorem reads_paren {p : Entry} {ps : List Entry} {gap : List Char} (hps : ∀ q ∈ p :: ps, q.Fits)
    (hb : (itemList ((p :: ps).map (·.1))).length + 2 < b)
    (hd : (itemList ((p :: ps).map (·.1))).length ≤ d) (hgap : ∀ c ∈ gap, isGap c = true)
    (hrest : Opens rest k) :
    Reads (primaryRule (rules b (d + 1))) .module
      (gap ++ ('(' :: (itemList ((p :: ps).map (·.1)) ++ ')' :: rest))) rest
      (Entry.Group (p :: ps)) := by
  have hopen := starts_open hgap (itemList ((p :: ps).map (·.1)) ++ ')' :: rest)
  obtain ⟨hcount, hlengths⟩ := length_entries (p :: ps)
  obtain ⟨n, rfl⟩ := Nat.exists_eq_add_of_lt (show (p :: ps).length < b by omega)
  have hitem (q : Entry) (hq : q ∈ p :: ps) : Leads q.1
      ∧ q.ReadBy (rules ((p :: ps).length + n + 1) (d + 1)).assignment := by
    have hle := hlengths q hq
    exact ⟨(hps q hq).leads, (hps q hq).readBy_assignment (by omega) (by omega)⟩
  obtain ⟨⟨k₁, hinner⟩, hitems⟩ := reads_entries hitem n rest
  refine .start_bind fun _ => .kind_bind hopen.opens (.start_bind fun begin => ?_)
  refine .bind (.expectPunct hopen hinner) fun _ _ => .start_bind fun inner => ?_
  rw [bound_rules]
  refine .bind (.within hitems) ?_
  rintro ⟨ts, trailing⟩ ⟨hts, rfl⟩
  have hclose := Reads.expectPunct (c := .module) (starts_close rest) hrest
  match ts, hts with
  | [t], hts =>
    refine .bind hclose fun _ _ => (Reads.node _ _ _).mono ?_
    rintro _ ⟨s, rfl⟩
    exact ⟨s, .none, [t], hts, rfl⟩
  | t :: t' :: ts, hts =>
    refine .bind (.node _ _ _) ?_
    rintro _ ⟨s', rfl⟩
    refine .bind hclose fun _ _ => (Reads.node _ _ _).mono ?_
    rintro _ ⟨s, rfl⟩
    exact ⟨s, s', t :: t' :: ts, hts, rfl⟩

theorem asChain_group {p : Entry} {ps : List Entry} (hps : ∀ q ∈ p :: ps, q.Fits) :
    AsChain false (enclosed (itemList ((p :: ps).map (·.1)))) (Entry.Group (p :: ps)) := by
  obtain ⟨-, hlengths⟩ := length_entries (p :: ps)
  have hlength : (enclosed (itemList ((p :: ps).map (·.1)))).length
      = (itemList ((p :: ps).map (·.1))).length + 2 := by
    simp [enclosed]
  have hscans (rest : List Char) : Scans (enclosed (itemList ((p :: ps).map (·.1))) ++ rest)
      (.punct "(") (itemList ((p :: ps).map (·.1)) ++ ')' :: rest) := by
    rw [enclosed_append]
    exact scans_separator (p := "(") (by decide) _
  refine ⟨⟨_, _, rfl, by decide⟩, fun rest k _ hopens hk => ⟨.fixed (hscans rest) rfl, ?_⟩, ?_⟩
  · intro b d gap hb hd hgap
    rw [enclosed_append]
    refine reads_parenArrow (fun y hy => ?_) hgap hopens hk
    obtain ⟨q, hq, rfl⟩ := List.mem_map.mp (show y ∈ (p :: ps).map (·.1) from hy)
    have hle := hlengths q hq
    exact ⟨(hps q hq).leads, by omega, by omega⟩
  · intro b d gap rest last k begin origin R hb hd hgap hrest hopens hsteps
    obtain ⟨d, rfl⟩ := Nat.exists_eq_add_of_le' (show 1 ≤ d by omega)
    rw [enclosed_append]
    refine .bind (reads_paren hps (by omega) (by omega) hgap hopens) fun t ht => ?_
    exact hsteps t begin b false b ht (by omega) (by omega)

/-! ### Steps -/

/-- A step behind an operand. -/
theorem asChain_step {o tail : List Char} {Q' : Tree → Prop} (k₁ : TokenKind)
    (ho : AsChain number o Q) (hends : ∀ rest, Ends number (tail ++ rest))
    (hopens : ∀ rest k, Ends false rest → Opens rest k → Opens (tail ++ rest) k₁)
    (hk₁ : k₁ ∉ [.punct ":", .punct "?", .punct ",", .punct "=", .punct ")", .punct "=>"])
    (hstep : ∀ b d rest last k begin origin bound called calls t R, (o ++ tail).length < b →
      (o ++ tail).length ≤ d → Ends false rest → Opens rest k → Q t → b ≤ bound + o.length →
      b ≤ calls + o.length →
      (∀ t begin bound called calls, Q' t → b ≤ bound + (o ++ tail).length →
        b ≤ calls + (o ++ tail).length →
        Reads (chainFrom (rules b d) begin bound origin called calls t) .module rest last R) →
      Reads (chainFrom (rules b d) begin bound origin called calls t) .module (tail ++ rest) last
        R) :
    AsChain false (o ++ tail) Q' := by
  obtain ⟨c, y, rfl, hc⟩ := ho.head
  refine ⟨⟨c, y ++ tail, rfl, hc⟩, fun rest k hrest hrestOpens hk => ?_, ?_⟩
  · have hopens := hopens rest k hrest hrestOpens
    have hbegins := ho.begins _ _ (hends rest) hopens fun heq => hk₁ (by simp [heq])
    exact hbegins.extend (hbegins.lead.extend hopens fun hmem =>
      hk₁ (List.mem_append_left [TokenKind.punct "=>"] hmem))
  · intro b d gap rest last k begin origin R hb hd hgap hrest hrestOpens hsteps
    rw [List.append_assoc]
    rw [List.length_append] at hb hd
    refine ho.reads b d gap _ last _ begin origin R (by omega) (by omega) hgap (hends rest)
      (hopens rest k hrest hrestOpens) fun t begin bound called calls ht hbound hcalls => ?_
    exact hstep b d rest last k begin origin bound called calls t R (by rwa [List.length_append])
      (by rwa [List.length_append]) hrest hrestOpens ht hbound hcalls hsteps

/-- A member behind an operand, and the steps behind it. -/
theorem reads_chainFrom_dot {r : Rules} {text middle : List Char} {P : Tree → Prop} {t : Tree}
    { begin bound origin calls : Nat} (h : Starts text (.punct ".") middle)
    (hmiddle : Opens middle k) (hstep : Reads (memberStep t begin false) .module middle rest P)
    (hsteps : ∀ t', P t' →
      Reads (chainFrom r begin bound origin called calls t') .module rest last R) :
    Reads (chainFrom r begin (bound + 1) origin called calls t) .module text last R := by
  rw [chainFrom, memberSteps, bind_assoc]
  refine .kind_bind h.opens ?_
  show Reads ((advance >>= fun _ => memberStep t begin false >>= fun t' =>
    memberSteps r begin bound t' false) >>= furtherCalls r origin called calls) _ _ _ _
  rw [bind_assoc]
  refine .bind (.advance h hmiddle) fun _ _ => ?_
  rw [bind_assoc]
  exact .bind hstep hsteps

/-- An index behind an operand, and the steps behind it. -/
theorem reads_chainFrom_bracket {r : Rules} {text : List Char} {P : Tree → Prop} {t : Tree}
    { begin bound origin calls : Nat} (h : Opens text (.punct "["))
    (hstep : Reads (indexStep r t begin false) .module text rest P)
    (hsteps : ∀ t', P t' →
      Reads (chainFrom r begin bound origin called calls t') .module rest last R) :
    Reads (chainFrom r begin (bound + 1) origin called calls t) .module text last R := by
  rw [chainFrom, memberSteps, bind_assoc]
  refine .kind_bind h ?_
  show Reads ((context >>= fun c => if c.inDecorator then pure (t, false) else
    indexStep r t begin false >>= fun t' => memberSteps r begin bound t' false)
    >>= furtherCalls r origin called calls) _ _ _ _
  rw [bind_assoc]
  refine .bind .context ?_
  rintro _ rfl
  rw [if_neg (by decide), bind_assoc]
  exact .bind hstep hsteps

/-- Where a parenthesis follows an operand, the member steps are at their end. -/
theorem reads_chainFrom_paren {text : List Char} {t : Tree}
    { begin bound origin calls : Nat} (h : Opens text (.punct "(")) (hb : 1 ≤ b)
    (hcall : ∀ calls', calls ≤ calls' →
      Reads (callTail (rules b d) origin calls' t false) .module text last R) :
    Reads (chainFrom (rules b d) begin (bound + 1) origin called (calls + 1) t) .module text last
      R := by
  obtain ⟨b, rfl⟩ := Nat.exists_eq_add_of_le' hb
  refine .bind (reads_noStep h (by decide) nofun begin bound t) ?_
  rintro _ rfl
  cases called with
  | true => exact hcall (calls + 1) (by omega)
  | false =>
    show Reads (callSteps (rules (b + 1) d) origin (calls + 1) t false) _ _ _ _
    rw [callSteps_succ, bound_rules]
    refine .bind (reads_noStep h (by decide) nofun origin b t) ?_
    rintro _ rfl
    exact hcall calls (by omega)

theorem asChain_member {o : List Char} {w : String} (ho : AsChain false o Q) (hw : IsName w) :
    AsChain false (o ++ '.' :: w.toList)
      fun t => ∃ s s' t', Q t' ∧ t = .node (.member false) s [t', .node (.word w) s' []] := by
  have hdot (rest : List Char) :
      Starts (('.' :: w.toList) ++ rest) (.punct ".") (w.toList ++ rest) :=
    (scans_dot hw rest).starts [] (by simp)
  refine asChain_step (.punct ".") ho (fun rest => ⟨by rintro _ ⟨⟩; decide, nofun⟩)
    (fun rest k _ _ => (hdot rest).opens) (by decide) ?_
  intro b d rest last k begin origin bound called calls t R hb hd hrest hopens ht hbound hcalls
    hsteps
  have hlength : (o ++ '.' :: w.toList).length = o.length + 1 + w.toList.length := by
    simp
    omega
  have hname := (scans_name hw rest hrest.1).starts [] (by simp)
  obtain ⟨bound, rfl⟩ := Nat.exists_eq_add_of_le' (show 1 ≤ bound by omega)
  have hstep : Reads (memberStep t begin false) .module (w.toList ++ rest) rest
      fun t' => ∃ s s', t' = .node (.member false) s [t, .node (.word w) s' []] := by
    refine .kind_bind hname.opens (.bind (reads_anyWord hname hopens _) ?_)
    rintro _ ⟨s', rfl⟩
    exact (Reads.node _ _ _).mono fun t' ⟨s, ht'⟩ => ⟨s, s', ht'⟩
  refine reads_chainFrom_dot (hdot rest) hname.opens hstep ?_
  rintro _ ⟨s, s', rfl⟩
  exact hsteps _ begin bound called calls ⟨s, s', t, ht, rfl⟩ (by omega) (by omega)

/-- The text of an index or call follows the operand directly. -/
theorem ends_cons {c : Char} (hc : c ∈ ['[', '(']) (rest : List Char) :
    Ends number (c :: rest) := by
  have hends : EndsNumber (c :: rest) := by
    rintro _ ⟨⟩
    simp only [List.mem_cons, List.not_mem_nil, or_false] at hc
    rcases hc with rfl | rfl <;> decide
  exact ⟨EndsNumber.endsName hends, fun _ => hends⟩

/-- An expression: one item, or a sequence of them. -/
def listed (s : Span) : List Tree → Tree
  | [t] => t
  | ts => .node .sequence s ts

/-- The tree is the expression that the items make up. -/
def Entry.Listed (ps : List Entry) (t : Tree) : Prop := ∃ s ts, Entry.Match ps ts ∧ t = listed s ts

/-- What stands behind an item: the next one, or what stands behind all of them. -/
theorem behind_listed (items : List (List Char)) (hrest : Behind rest k) (hk : k ∈ closings) :
    ∃ k' ∈ closings, Behind (furtherItems items ++ rest) k' := by
  cases items with
  | nil => exact ⟨k, hk, hrest⟩
  | cons y items => exact ⟨_, by decide, behind_comma _⟩

/-- The items of an expression behind the first one. -/
theorem reads_commaSteps {ps : List Entry}
    (hps : ∀ q ∈ ps, q.Fits ∧ q.1.length < b ∧ q.1.length ≤ d) (hrest : Behind rest k)
    (hk : k ∈ closings) (hcomma : k ≠ .punct ",") (n : Nat) :
    Reads (commaSteps (rules b d) (ps.length + n + 1)) .module
      (furtherItems (ps.map (·.1)) ++ rest) rest (Entry.Match ps) := by
  induction ps with
  | nil =>
    rw [List.length_nil, Nat.zero_add]
    refine .bind (.eatPunct_other hrest.opens hcomma) ?_
    rintro _ rfl
    exact .pure .nil
  | cons q ps ih =>
    obtain ⟨hq, hb, hd⟩ := hps q List.mem_cons_self
    obtain ⟨k', hk', hbehind⟩ := behind_listed (ps.map (·.1)) hrest hk
    obtain ⟨k₁, hopens, -⟩ := hq.leads.opens hbehind isGap_space
    have htext : furtherItems ((q :: ps).map (·.1)) ++ rest
        = ',' :: ([' '] ++ (q.1 ++ (furtherItems (ps.map (·.1)) ++ rest))) := by
      simp [furtherItems, led]
    rw [htext, List.length_cons, Nat.add_right_comm _ 1 n]
    refine .bind (.eatPunct (starts_comma _) hopens) ?_
    rintro _ rfl
    refine .bind (hq.reads b d [' '] _ k' hb hd isGap_space hbehind hk') fun t ht => ?_
    exact .bind (ih fun x hx => hps x (List.mem_cons_of_mem _ hx)) fun ts hts =>
      .pure (.cons ht hts)

theorem reads_list {p : Entry} {ps : List Entry} {gap : List Char} (hps : ∀ q ∈ p :: ps, q.Fits)
    (hb : (itemList ((p :: ps).map (·.1))).length < b)
    (hd : (itemList ((p :: ps).map (·.1))).length ≤ d) (hgap : ∀ c ∈ gap, isGap c = true)
    (hrest : Behind rest k) (hk : k ∈ closings) (hcomma : k ≠ .punct ",") :
    Reads (expressionRule (rules b d)) .module (gap ++ (itemList ((p :: ps).map (·.1)) ++ rest))
      rest (Entry.Listed (p :: ps)) := by
  obtain ⟨hcount, hlengths⟩ := length_entries (p :: ps)
  have hp := (hps p List.mem_cons_self).reads b d gap
  have hle := hlengths p List.mem_cons_self
  have htext : itemList ((p :: ps).map (·.1)) ++ rest
      = p.1 ++ (furtherItems (ps.map (·.1)) ++ rest) := by
    simp [itemList]
  rw [htext]
  refine .start_bind fun begin => .within ?_
  cases ps with
  | nil =>
    refine .bind (hp rest k (by omega) (by omega) hgap hrest hk) fun t ht => ?_
    refine .bind (.atPunct hrest.opens ",") ?_
    rintro _ rfl
    rw [decide_eq_false hcomma]
    exact .pure ⟨.none, [t], .cons ht .nil, rfl⟩
  | cons q ps =>
    refine .bind (hp _ _ (by omega) (by omega) hgap (behind_comma _) (by decide)) fun t ht => ?_
    refine .bind (.atPunct (behind_comma _).opens ",") ?_
    rintro _ rfl
    rw [decide_eq_true rfl]
    rw [List.length_cons] at hcount
    obtain ⟨n, rfl⟩ := Nat.exists_eq_add_of_lt (show (q :: ps).length < b by omega)
    have hitems (x : Entry) (hx : x ∈ q :: ps) :
        x.Fits ∧ x.1.length < (q :: ps).length + n + 1 ∧ x.1.length ≤ d := by
      have hle := hlengths x (List.mem_cons_of_mem _ hx)
      exact ⟨hps x (List.mem_cons_of_mem _ hx), by omega, by omega⟩
    rw [bound_rules]
    refine .bind (reads_commaSteps hitems hrest hk hcomma n) fun ts hts =>
      (Reads.node _ _ _).mono ?_
    rintro _ ⟨s, rfl⟩
    obtain ⟨t', ts, rfl⟩ : ∃ t' ts', ts = t' :: ts' := by
      cases hts with
      | cons h hts => exact ⟨_, _, rfl⟩
    exact ⟨s, t :: t' :: ts, .cons ht hts, rfl⟩

theorem asChain_index {o : List Char} {p : Entry} {ps : List Entry} (ho : AsChain number o Q)
    (hps : ∀ q ∈ p :: ps, q.Fits) :
    AsChain false (o ++ '[' :: (itemList ((p :: ps).map (·.1)) ++ [']']))
      fun t => ∃ s o' i, Q o' ∧ Entry.Listed (p :: ps) i ∧ t = .node (.index false) s [o', i] := by
  have hbracket (rest : List Char) : Starts ('[' :: rest) (.punct "[") rest :=
    (scans_separator (p := "[") (by decide) rest).starts [] (by simp)
  refine asChain_step (.punct "[") ho (fun rest => ends_cons (by decide) _)
    (fun rest k _ _ => (hbracket _).opens) (by decide) ?_
  intro b d rest last k begin origin bound called calls t R hb hd hrest hopens ht hbound hcalls
    hsteps
  have hlength : (o ++ '[' :: (itemList ((p :: ps).map (·.1)) ++ [']'])).length
      = o.length + (itemList ((p :: ps).map (·.1))).length + 2 := by
    simp
    omega
  have htext : ('[' :: (itemList ((p :: ps).map (·.1)) ++ [']'])) ++ rest
      = '[' :: ([] ++ (itemList ((p :: ps).map (·.1)) ++ ']' :: rest)) := by
    simp
  obtain ⟨bound, rfl⟩ := Nat.exists_eq_add_of_le' (show 1 ≤ bound by omega)
  obtain ⟨d, rfl⟩ := Nat.exists_eq_add_of_le' (show 1 ≤ d by omega)
  obtain ⟨k', hk', hbehind⟩ := behind_listed (ps.map (·.1)) (behind_bracket rest) (by decide)
  obtain ⟨k₁, hinner, -⟩ := (hps p List.mem_cons_self).leads.opens hbehind (List.forall_mem_nil _)
  have hindex := reads_list (b := b) (d := d) hps (by omega) (by omega) (List.forall_mem_nil _)
    (behind_bracket rest) (by decide) (by decide)
  have hstep : Reads (indexStep (rules b (d + 1)) t begin false) .module
      ('[' :: ([] ++ (itemList ((p :: ps).map (·.1)) ++ ']' :: rest))) rest
      fun t' => ∃ s i, Entry.Listed (p :: ps) i ∧ t' = .node (.index false) s [t, i] := by
    refine .bind (.expectPunct (hbracket _) (by simpa [itemList] using hinner)) fun _ _ => ?_
    refine .bind (.within hindex) fun i hi => ?_
    refine .bind (.expectPunct (starts_bracket rest) hopens) fun _ _ => (Reads.node _ _ _).mono ?_
    rintro _ ⟨s, rfl⟩
    exact ⟨s, i, hi, rfl⟩
  rw [htext]
  refine reads_chainFrom_bracket (hbracket _).opens hstep ?_
  rintro _ ⟨s, i, hi, rfl⟩
  exact hsteps _ begin bound called calls ⟨s, t, i, ht, hi, rfl⟩ (by omega) (by omega)

theorem asChain_call {o : List Char} {ps : List Entry} (ho : AsChain number o Q)
    (hps : ∀ q ∈ ps, q.Fits) :
    AsChain false (o ++ '(' :: (itemList (ps.map (·.1)) ++ [')']))
      fun t => ∃ s f args,
        Q f ∧ Entry.Match ps args ∧ t = .node (.call false false) s (f :: args) := by
  have hparen (rest : List Char) : Starts ('(' :: rest) (.punct "(") rest :=
    starts_open (List.forall_mem_nil _) rest
  refine asChain_step (.punct "(") ho (fun rest => ends_cons (by decide) _)
    (fun rest k _ _ => (hparen _).opens) (by decide) ?_
  intro b d rest last k begin origin bound called calls t R hb hd hrest hopens ht hbound hcalls
    hsteps
  have hlength : (o ++ '(' :: (itemList (ps.map (·.1)) ++ [')'])).length
      = o.length + (itemList (ps.map (·.1))).length + 2 := by
    simp
    omega
  have htext : ('(' :: (itemList (ps.map (·.1)) ++ [')'])) ++ rest
      = '(' :: (itemList (ps.map (·.1)) ++ ')' :: rest) := by
    simp
  obtain ⟨hcount, hlengths⟩ := length_entries ps
  obtain ⟨bound, rfl⟩ := Nat.exists_eq_add_of_le' (show 1 ≤ bound by omega)
  obtain ⟨calls, rfl⟩ := Nat.exists_eq_add_of_le' (show 2 ≤ calls by omega)
  obtain ⟨d, rfl⟩ := Nat.exists_eq_add_of_le' (show 1 ≤ d by omega)
  rw [htext]
  refine reads_chainFrom_paren (hparen _).opens (by omega) fun calls' hcalls' => ?_
  obtain ⟨n, rfl⟩ := Nat.exists_eq_add_of_lt (show ps.length < b by omega)
  have hargument (q : Entry) (hq : q ∈ ps) : Leads q.1
      ∧ q.ReadBy (argumentRule (rules (ps.length + n + 1) (d + 1))) := by
    have hle := hlengths q hq
    exact ⟨(hps q hq).leads, (hps q hq).readBy_argument (by omega) (by omega)⟩
  obtain ⟨⟨k₁, hinner⟩, hitems⟩ := reads_entries hargument n rest
  refine .bind (.eatPunct_other (hparen _).opens (by decide)) ?_
  rintro _ rfl
  refine .bind (.eatPunct (hparen _) hinner) ?_
  rintro _ rfl
  rw [bound_rules]
  refine .bind (.within hitems) ?_
  rintro ⟨args, trailing⟩ ⟨hargs, rfl⟩
  refine .bind (.expectPunct (starts_close rest) hopens) fun _ _ => .bind (.node _ _ _) ?_
  rintro _ ⟨s, rfl⟩
  obtain ⟨calls', rfl⟩ := Nat.exists_eq_add_of_le' (show 1 ≤ calls' by omega)
  show Reads (callSteps (rules (ps.length + n + 1) (d + 1)) origin (calls' + 1) _ false) _ _ _ _
  rw [callSteps_succ]
  exact hsteps _ origin (ps.length + n + 1) true calls' ⟨s, t, args, ht, hargs, rfl⟩ (by omega)
    (by omega)

end

end Reactive.Script.Parser
