/-
  Bodies, methods and modules that compiled components are written with.

  Statements in braces are a block or the body of a function; functions behind a name in an object
  literal are its methods; and one exported function makes a module.
-/
import Reactive.Proofs.Script.Statement

namespace Reactive.Script.Parser

section

variable {b d : Nat} {c : Context} {text inner rest gap : List Char} {k : TokenKind}

/-! ## Statements in braces -/

/-- Statements in braces, the closing one on a line of its own. -/
def braced (inner gap : List Char) : List Char := '\x7b' :: (inner ++ '\n' :: (gap ++ ['\x7d']))

theorem length_braced (inner gap : List Char) :
    (braced inner gap).length = inner.length + gap.length + 3 := by
  simp [braced]
  omega

theorem starts_braced (before inner gap rest : List Char) (hbefore : ∀ c ∈ before, isGap c = true) :
    Starts (before ++ (braced inner gap ++ rest)) (.punct "\x7b")
      (inner ++ '\n' :: (gap ++ '\x7d' :: rest)) := by
  have htext : before ++ (braced inner gap ++ rest)
      = before ++ ("\x7b".toList ++ (inner ++ '\n' :: (gap ++ '\x7d' :: rest))) := by
    simp [braced]
  rw [htext]
  exact (scans_separator (by decide) _).starts _ hbefore

theorem starts_closing (hgap : ∀ c ∈ gap, isGap c = true) (rest : List Char) :
    Starts ('\n' :: (gap ++ '\x7d' :: rest)) (.punct "\x7d") rest :=
  (scans_separator (p := "\x7d") (by decide) rest).starts ('\n' :: gap)
    (List.forall_mem_cons.mpr ⟨rfl, hgap⟩)

/-- The statements in braces are read up to the closing one. -/
theorem AsStatements.reads_inner (h : AsStatements inner) (hgap : ∀ c ∈ gap, isGap c = true)
    (hb : inner.length < b) (hd : inner.length < d) (rest : List Char) :
    NextLine (inner ++ '\n' :: (gap ++ '\x7d' :: rest)) ∧ ∀ prologue,
      Reads (statementsUntil (rules b d) atClose b prologue) .body
        (inner ++ '\n' :: (gap ++ '\x7d' :: rest)) ('\n' :: (gap ++ '\x7d' :: rest))
        fun _ => True := by
  have hclose := starts_closing hgap rest
  have hstop : Reads atClose .body ('\n' :: (gap ++ '\x7d' :: rest))
      ('\n' :: (gap ++ '\x7d' :: rest)) (· = true) := by
    refine .bind (.atPunct hclose.opens "\x7d") ?_
    rintro _ rfl
    exact .bind (.atEnd hclose.opens) fun _ _ => .pure rfl
  have hfinal : ∀ m prologue, 1 ≤ m → Reads (statementsUntil (rules b d) atClose m prologue) .body
      ('\n' :: (gap ++ '\x7d' :: rest)) ('\n' :: (gap ++ '\x7d' :: rest)) fun _ => True := by
    intro m prologue hm
    obtain ⟨m, rfl⟩ := Nat.exists_eq_add_of_le' hm
    refine .bind hstop ?_
    rintro _ rfl
    exact .pure trivial
  -- The closing brace is read as the empty list of statements.
  obtain ⟨hnext, hreads⟩ := h b d _ _ 1 (by omega) hd ⟨rfl, _, hclose.opens, by decide⟩ hfinal
  exact ⟨hnext, fun prologue => hreads b prologue (by omega)⟩

/-- Behind the directives, statements are read like any items. -/
theorem statementsUntil_false (r : Rules) (stop : Parser Bool) (n : Nat) :
    statementsUntil r stop n false = itemsUntil stop (r.statement .list) n := by
  induction n with
  | zero => rfl
  | succ n ih =>
    simp only [statementsUntil, itemsUntil, ih]
    rfl

/-- A block is a statement. -/
theorem asStatement_block (h : AsStatements inner) (hgap : ∀ c ∈ gap, isGap c = true)
    (place : Place) : AsStatement place (braced inner gap) := by
  intro b d before rest hb hd hbefore hrest
  obtain ⟨k, hopens, -⟩ := hrest.opens
  rw [length_braced] at hb hd
  have hopen := starts_braced before inner gap rest hbefore
  obtain ⟨hnext, hreads⟩ := h.reads_inner hgap (b := b) (d := d) (by omega) (by omega) rest
  obtain ⟨k', hinner, -⟩ := hnext.opens
  have hitems := hreads false
  rw [statementsUntil_false] at hitems
  refine ⟨⟨_, hopen.opens, by decide⟩, reads_statement hopen ?_⟩
  refine .start_bind fun _ => .kind_bind hopen.opens (.start_bind fun begin => ?_)
  refine .bind (.expectPunct hopen hinner) fun _ _ => ?_
  rw [bound_rules]
  refine .bind hitems fun items _ => ?_
  refine .bind (.expectPunct (starts_closing hgap rest) hopens) fun _ _ => ?_
  exact (Reads.node _ _ _).mono fun _ _ => trivial

/-! ## Functions -/

/-- The body of a function. -/
theorem reads_functionBody (before : List Char) (h : AsStatements inner)
    (hgap : ∀ c ∈ gap, isGap c = true) (hbefore : ∀ c ∈ before, isGap c = true)
    (hb : inner.length < b) (hd : inner.length < d) (hopens : Opens rest k)
    (hc : { c with allowReturn := true, allowIn := true } = Context.body) :
    Reads (functionBody (rules b d)) c (before ++ (braced inner gap ++ rest)) rest
      fun _ => True := by
  have hopen := starts_braced before inner gap rest hbefore
  obtain ⟨hnext, hreads⟩ := h.reads_inner hgap (b := b) (d := d) hb hd rest
  obtain ⟨k', hinner, -⟩ := hnext.opens
  refine .start_bind fun begin => .bind (.expectPunct hopen hinner) fun _ _ => ?_
  rw [bound_rules]
  refine .bind (.within (by rw [hc]; exact hreads true)) fun items _ => ?_
  refine .bind (.expectPunct (starts_closing hgap rest) hopens) fun _ _ => ?_
  exact (Reads.node _ _ _).mono fun _ _ => trivial

/-- Where the parameters of a function stand that is neither asynchronous nor a generator. -/
def parameterContext (c : Context) : Context :=
  { c with allowIn := true, allowAwait := false, inGenerator := false, inDecorator := false }

/-- The parameters and the body of a function. -/
theorem reads_functionRest (parameters : List Char) (h : AsStatements inner)
    (hgap : ∀ c ∈ gap, isGap c = true) (hb : inner.length < b) (hd : inner.length < d)
    (hopens : Opens rest k)
    (hparameters : Reads (parametersRule (rules b d)) (parameterContext c)
      (parameters ++ ' ' :: (braced inner gap ++ rest)) (' ' :: (braced inner gap ++ rest))
      fun _ => True) :
    Reads (functionRest (rules b d) false false) c
      (parameters ++ ' ' :: (braced inner gap ++ rest)) rest fun _ => True := by
  have hopen := starts_braced [' '] inner gap rest isGap_space
  refine .within (.bind hparameters fun ps _ => ?_)
  refine .bind (.atPunct hopen.opens "\x7b") ?_
  rintro _ rfl
  exact .bind (reads_functionBody [' '] h hgap isGap_space hb hd hopens rfl)
    fun body _ => .pure trivial

/-- The end of a list of parameters. -/
theorem reads_restList_end {close : String} (hopens : Opens text (.punct close))
    (item more : Parser Tree) (n : Nat) (first afterRest : Bool) :
    Reads (restList close item more (n + 1) first afterRest) c text text fun _ => True := by
  refine .bind (.atPunct hopens close) ?_
  rintro _ rfl
  rw [decide_eq_true rfl]
  exact .pure trivial

/-- No parameters. -/
theorem reads_parameters_nil (hgap : ∀ c ∈ gap, isGap c = true) (hb : 1 ≤ b)
    (hopens : Opens rest k) :
    Starts (gap ++ '(' :: ')' :: rest) (.punct "(") (')' :: rest)
      ∧ Reads (parametersRule (rules b d)) c (gap ++ '(' :: ')' :: rest) rest fun _ => True := by
  have hopen := (scans_separator (p := "(") (by decide) (')' :: rest)).starts _ hgap
  have hclose := starts_close rest
  obtain ⟨b, rfl⟩ := Nat.exists_eq_add_of_le' hb
  refine ⟨hopen, .start_bind fun begin => .bind (.expectPunct hopen hclose.opens) fun _ _ => ?_⟩
  rw [bound_rules]
  exact .bind (reads_restList_end hclose.opens _ _ _ _ _) fun items _ =>
    .bind (.expectPunct hclose hopens) fun _ _ => (Reads.node _ _ _).mono fun _ _ => trivial

/-- One parameter. -/
theorem reads_parameters_one {w : String} (hw : IsVariable w) (hb : 2 ≤ b) (hopens : Opens rest k) :
    Reads (parametersRule (rules b (d + 1))) .body ('(' :: (w.toList ++ ')' :: rest)) rest
      fun _ => True := by
  have hopen := (scans_separator (p := "(") (by decide) (w.toList ++ ')' :: rest)).starts
    [] (by simp)
  have hclose := starts_close rest
  have hname := (scans_name hw.name (')' :: rest) (by rintro _ ⟨⟩; decide)).starts
    [] (by simp)
  have hne : ∀ p, TokenKind.word w ≠ .punct p := fun p => nofun
  obtain ⟨b, rfl⟩ := Nat.exists_eq_add_of_le' hb
  have hdecorators : Reads (decorators (rules (b + 2) (d + 1))) .body (w.toList ++ ')' :: rest)
      (w.toList ++ ')' :: rest) (· = []) := by
    rw [decorators, bound_rules]
    have hnone : Reads (do return !(← atPunct "@")) .body (w.toList ++ ')' :: rest)
        (w.toList ++ ')' :: rest) (· = true) := by
      refine .bind (.atPunct hname.opens "@") ?_
      rintro _ rfl
      rw [decide_eq_false (hne _)]
      exact .pure rfl
    refine .bind hnone ?_
    rintro _ rfl
    exact .pure rfl
  have hparameter : Reads (parameter (rules (b + 2) (d + 1))) .body (w.toList ++ ')' :: rest)
      (')' :: rest) fun _ => True := by
    refine .start_bind fun begin => .bind hdecorators ?_
    rintro _ rfl
    refine .bind .flawIf_false fun _ _ => ?_
    refine .bind (reads_pattern hw.isBinding.binding hname hclose.opens) fun p _ => ?_
    refine .bind (.eatPunct_other hclose.opens (by decide)) ?_
    rintro _ rfl
    exact .bind (.pure (Q := fun _ => True) trivial) fun _ _ =>
      (Reads.node _ _ _).mono fun _ _ => trivial
  have hlist (more : Parser Tree) :
      Reads (restList ")" (parameter (rules (b + 2) (d + 1))) more (b + 2) true false) .body
        (w.toList ++ ')' :: rest) (')' :: rest) fun _ => True := by
    refine .bind (.atPunct hname.opens ")") ?_
    rintro _ rfl
    rw [decide_eq_false (hne _)]
    refine .bind .flawIf_false fun _ _ => .bind (.atPunct hname.opens "...") ?_
    rintro _ rfl
    rw [decide_eq_false (hne _)]
    exact .bind hparameter fun t _ => .bind (reads_restList_end hclose.opens _ _ _ _ _) fun _ _ =>
      .pure trivial
  refine .start_bind fun begin => .bind (.expectPunct hopen hname.opens) fun _ _ => ?_
  rw [bound_rules]
  exact .bind (hlist _) fun items _ => .bind (.expectPunct hclose hopens) fun _ _ =>
    (Reads.node _ _ _).mono fun _ _ => trivial

/-! ## Methods -/

/-- A method with one parameter. -/
def methodOf (name parameter : String) (inner gap : List Char) : List Char :=
  name.toList ++ '(' :: (parameter.toList ++ ')' :: ' ' :: braced inner gap)

/-- The word is no modifier. -/
theorem reads_atModifier {w modifier : String} (hopens : Opens text (.word w))
    (hw : w ≠ modifier) (sameLine : Bool) :
    Reads (atModifier modifier sameLine) c text text (· = false) := by
  refine .bind (.atWord hopens modifier) ?_
  rintro _ rfl
  rw [decide_eq_false fun heq => hw (TokenKind.word.inj heq)]
  exact .pure rfl

/-- The text is a property of an object, wherever a comma follows. -/
def AsProperty (text : List Char) : Prop :=
  ∀ b d rest, text.length ≤ b → text.length ≤ d →
    (∃ w, Opens (text ++ ',' :: rest) (.word w))
    ∧ Reads (propertyRule (rules b d)) .body (text ++ ',' :: rest) (',' :: rest) fun _ => True

theorem asProperty_method {name parameter : String} {before : List Char} (hname : IsVariable name)
    (hplain : name ∉ ["get", "set"]) (hparameter : IsVariable parameter) (h : AsStatements inner)
    (hgap : ∀ c ∈ gap, isGap c = true) (hbefore : ∀ c ∈ before, isGap c = true) :
    AsProperty (before ++ methodOf name parameter inner gap) := by
  intro b d rest hb hd
  simp only [methodOf, List.length_append, List.length_cons, length_braced] at hb hd
  obtain ⟨d, rfl⟩ := Nat.exists_eq_add_of_le' (show 1 ≤ d by omega)
  have htext : before ++ methodOf name parameter inner gap ++ ',' :: rest = before ++ (name.toList
      ++ '(' :: (parameter.toList ++ ')' :: ' ' :: (braced inner gap ++ ',' :: rest))) := by
    simp [methodOf]
  have hstarts := (scans_name hname.name
    ('(' :: (parameter.toList ++ ')' :: ' ' :: (braced inner gap ++ ',' :: rest)))
    (by rintro _ ⟨⟩; decide)).starts _ hbefore
  have hopen := (scans_separator (p := "(") (by decide)
    (parameter.toList ++ ')' :: ' ' :: (braced inner gap ++ ',' :: rest))).starts []
    (by simp)
  have hbrace := starts_braced [' '] inner gap (',' :: rest) isGap_space
  have hne : ∀ p, TokenKind.word name ≠ .punct p := fun p => nofun
  -- Before its parentheses the name could still be a modifier.
  have hasync : name ≠ "async" := by
    rintro rfl
    exact hname.plain (by decide)
  have hkey : Reads (propertyName (rules b (d + 1)) false) .body
      (before ++ (name.toList
        ++ '(' :: (parameter.toList ++ ')' :: ' ' :: (braced inner gap ++ ',' :: rest))))
      ('(' :: (parameter.toList ++ ')' :: ' ' :: (braced inner gap ++ ',' :: rest)))
      fun _ => True := by
    refine .bind (.token hstarts.opens) fun t ht => ?_
    rw [ht]
    exact .bind (.advance hstarts hopen.opens) fun _ _ => .pure trivial
  have hfunction : Reads (methodFunction (rules b (d + 1)) false false) .body
      ('(' :: (parameter.toList ++ ')' :: ' ' :: (braced inner gap ++ ',' :: rest))) (',' :: rest)
      fun _ => True := by
    have hrest := reads_functionRest ('(' :: (parameter.toList ++ [')'])) (c := .body)
      (d := d + 1) h hgap (b := b) (by omega) (by omega) (starts_comma rest).opens
      (by
        rw [List.cons_append, List.append_assoc, List.singleton_append]
        exact reads_parameters_one hparameter (by omega) hbrace.opens)
    simp only [List.cons_append, List.append_assoc, List.nil_append] at hrest
    exact .start_bind fun begin => .bind hrest fun x _ => (Reads.node _ _ _).mono fun _ _ => trivial
  rw [htext]
  refine ⟨⟨name, hstarts.opens⟩, .start_bind fun begin => .bind (.atPunct hstarts.opens "...") ?_⟩
  rintro _ rfl
  rw [decide_eq_false (hne _)]
  refine .bind (reads_atModifier hstarts.opens (fun heq => hplain (by simp [heq])) false) ?_
  rintro _ rfl
  refine .bind (reads_atModifier hstarts.opens (fun heq => hplain (by simp [heq])) false) ?_
  rintro _ rfl
  refine .bind (reads_atModifier hstarts.opens hasync true) ?_
  rintro _ rfl
  refine .bind (.eatPunct_other hstarts.opens (hne _)) ?_
  rintro _ rfl
  refine .bind .context fun c _ => .kind_bind hstarts.opens (.bind hkey ?_)
  rintro ⟨key, computed⟩ -
  refine .bind (.atPunct hopen.opens "(") ?_
  rintro _ rfl
  exact .bind hfunction fun f _ => (Reads.node _ _ _).mono fun _ _ => trivial

/-! ## Objects -/

/-- Properties, each with a comma behind it. -/
def propertyList (properties : List (List Char)) : List Char := properties.flatMap (· ++ [','])

/-- An object literal, its closing brace on a line of its own. -/
def objectOf (properties : List (List Char)) (gap : List Char) : List Char :=
  '\x7b' :: (propertyList properties ++ '\n' :: (gap ++ ['\x7d']))

/-- The properties behind one that has been read, up to the closing brace. -/
theorem reads_propertyList {properties : List (List Char)} {close : List Char}
    (hproperties : ∀ p ∈ properties, AsProperty p ∧ p.length ≤ b ∧ p.length ≤ d)
    (hclose : Opens close (.punct "\x7d")) (n : Nat) :
    Reads (commaList "\x7d" (propertyRule (rules b d)) (properties.length + n + 1) false) .body
      (',' :: (propertyList properties ++ close)) close fun _ => True := by
  induction properties with
  | nil =>
    have hcomma := starts_comma close
    refine .bind (.atPunct hcomma.opens "\x7d") ?_
    rintro _ rfl
    refine .bind (.expectPunct hcomma hclose) fun _ _ => .bind (.atPunct hclose "\x7d") ?_
    rintro _ rfl
    exact .pure trivial
  | cons p properties ih =>
    obtain ⟨hp, hb, hd⟩ := hproperties p List.mem_cons_self
    have htext : propertyList (p :: properties) ++ close
        = p ++ ',' :: (propertyList properties ++ close) := by
      simp [propertyList]
    obtain ⟨⟨w, hopens⟩, hreads⟩ := hp b d (propertyList properties ++ close) hb hd
    have hcomma := starts_comma (p ++ ',' :: (propertyList properties ++ close))
    rw [htext, List.length_cons, Nat.add_right_comm _ 1 n]
    refine .bind (.atPunct hcomma.opens "\x7d") ?_
    rintro _ rfl
    refine .bind (.expectPunct hcomma hopens) fun _ _ => .bind (.atPunct hopens "\x7d") ?_
    rintro _ rfl
    rw [decide_eq_false (by nofun)]
    refine .bind hreads fun x _ => ?_
    exact .bind (ih fun x hx => hproperties x (List.mem_cons_of_mem _ hx)) fun _ _ => .pure trivial

/-- An object literal is an operand. -/
theorem asOperand_object {p : List Char} {properties : List (List Char)}
    (hproperties : ∀ x ∈ p :: properties, AsProperty x) (hgap : ∀ c ∈ gap, isGap c = true) :
    AsOperand (objectOf (p :: properties) gap) fun t => t.isAbsent = false := by
  refine ⟨by simp [objectOf], ?_⟩
  intro b d before rest hb hd hbefore hrest
  obtain ⟨hcount, hlengths⟩ := length_pieces (f := (· ++ [','])) (by simp) properties
  have hlength : (objectOf (p :: properties) gap).length
      = p.length + (properties.flatMap (· ++ [','])).length + gap.length + 4 := by
    simp [objectOf, propertyList]
    omega
  have hclose := starts_closing hgap rest
  have htext : before ++ (objectOf (p :: properties) gap ++ rest) = before ++ ("\x7b".toList
      ++ (p ++ ',' :: (propertyList properties ++ '\n' :: (gap ++ '\x7d' :: rest)))) := by
    simp [objectOf, propertyList]
  have hopen := (scans_separator (p := "\x7b") (by decide)
    (p ++ ',' :: (propertyList properties ++ '\n' :: (gap ++ '\x7d' :: rest)))).starts _ hbefore
  obtain ⟨k, -, hafter⟩ := hrest.opens
  obtain ⟨⟨w, hopens⟩, hproperty⟩ := hproperties p List.mem_cons_self b d
    (propertyList properties ++ '\n' :: (gap ++ '\x7d' :: rest)) (by omega) (by omega)
  obtain ⟨n, rfl⟩ : ∃ n, b = properties.length + n + 2 :=
    ⟨b - properties.length - 2, by omega⟩
  have hitems : Reads (commaList "\x7d" (propertyRule (rules (properties.length + n + 2) d))
      (properties.length + n + 2) true) .body
      (p ++ ',' :: (propertyList properties ++ '\n' :: (gap ++ '\x7d' :: rest)))
      ('\n' :: (gap ++ '\x7d' :: rest)) fun _ => True := by
    refine .bind (.atPunct hopens "\x7d") ?_
    rintro _ rfl
    rw [decide_eq_false (by nofun)]
    refine .bind (.atPunct hopens "\x7d") fun _ _ => .bind hproperty fun x _ => ?_
    refine .bind (reads_propertyList (fun x hx => ?_) hclose.opens n) fun _ _ => .pure trivial
    have hle := hlengths x hx
    exact ⟨hproperties x (List.mem_cons_of_mem _ hx), by omega, by omega⟩
  rw [htext]
  refine ⟨_, _, hopen, rfl, reads_operand_of_primary (by omega) ?_ hrest⟩
  refine .start_bind fun _ => .kind_bind hopen.opens (.start_bind fun begin => ?_)
  refine .bind (.expectPunct hopen hopens) fun _ _ => ?_
  rw [bound_rules]
  refine .bind (.within hitems) ?_
  rintro ⟨items, trailing⟩ -
  refine .bind (.expectPunct hclose hafter) fun _ _ => ?_
  refine .bind (reads_noteTrailing begin trailing) fun _ _ => ?_
  refine (Reads.node _ _ _).mono ?_
  rintro _ ⟨span, rfl⟩
  rfl

/-! ## Modules -/

/-- A module with a single function, which is exported. -/
def exportOf (name : Option String) (inner : List Char) : List Char :=
  "export default function ".toList ++ ((name.getD "").toList ++ ("() ".toList
    ++ (braced inner [] ++ ['\n'])))

theorem length_lt_exportOf (name : Option String) (inner : List Char) :
    inner.length < (exportOf name inner).length := by
  have hbraced : inner.length < (braced inner [] ++ ['\n']).length := by
    rw [List.length_append, length_braced]
    omega
  have hsuffix : braced inner [] ++ ['\n'] <:+ exportOf name inner :=
    (List.suffix_append _ _).trans ((List.suffix_append _ _).trans (List.suffix_append _ _))
  exact Nat.lt_of_lt_of_le hbraced hsuffix.length_le

theorem opens_final : Opens ['\n'] .endOfInput := by
  intro offset t _
  exact ⟨rfl, rfl⟩

/-- A function without parameters, behind its name. -/
theorem reads_bareFunction (h : AsStatements inner) (gap : List Char)
    (hgap : ∀ c ∈ gap, isGap c = true) (hb : inner.length < b) (hd : inner.length < d) :
    Starts (gap ++ ("() ".toList ++ (braced inner [] ++ ['\n']))) (.punct "(")
        (')' :: ' ' :: (braced inner [] ++ ['\n']))
      ∧ Reads (functionRest (rules b d) false false) .module
        (gap ++ ("() ".toList ++ (braced inner [] ++ ['\n']))) ['\n'] fun _ => True := by
  have hbrace := starts_braced [' '] inner [] ['\n'] isGap_space
  obtain ⟨hopen, hparameters⟩ := reads_parameters_nil (c := parameterContext .module) (d := d) hgap
    (b := b) (by omega) hbrace.opens
  have hnone : ∀ c ∈ ([] : List Char), isGap c = true := nofun
  have hreads := reads_functionRest (gap ++ ['(', ')']) (c := .module) h hnone hb hd opens_final
    (by simpa using hparameters)
  exact ⟨hopen, by simpa using hreads⟩

/-- The exported function, with or without a name. -/
theorem reads_functionFrom {name : Option String}
    (hname : ∀ n ∈ name, IsBinding n ∧ n ≠ "await") (h : AsStatements inner)
    (hb : inner.length < b) (hd : inner.length < d) ( begin : Nat) :
    Starts (" function".toList ++ ' ' :: ((name.getD "").toList ++ ("() ".toList
        ++ (braced inner [] ++ ['\n'])))) (.word "function")
      (' ' :: ((name.getD "").toList ++ ("() ".toList ++ (braced inner [] ++ ['\n']))))
    ∧ Reads (functionFrom (rules b d) .exported .optional begin false) .module
      (" function".toList ++ ' ' :: ((name.getD "").toList ++ ("() ".toList
        ++ (braced inner [] ++ ['\n'])))) ['\n'] fun _ => True := by
  have hword := (scans_name (w := "function") (by decide) (' ' :: ((name.getD "").toList
    ++ ("() ".toList ++ (braced inner [] ++ ['\n'])))) (by rintro _ ⟨⟩; decide)).starts
    [' '] isGap_space
  -- With a name, the parenthesis stands right behind it; without one, behind a space.
  refine ⟨hword, ?_⟩
  cases name with
  | none =>
    obtain ⟨hopen, hrest⟩ := reads_bareFunction h [' '] isGap_space hb hd
    refine .bind (.expectWord hword hopen.opens) fun _ _ => ?_
    refine .bind (.eatPunct_other hopen.opens (by decide)) ?_
    rintro _ rfl
    refine .kind_bind hopen.opens ?_
    refine .bind .flawIf_false fun _ _ => .bind (.pure (Q := fun _ => True) trivial) fun _ _ => ?_
    exact .bind hrest fun x _ => (Reads.node _ _ _).mono fun _ _ => trivial
  | some n =>
    obtain ⟨hbinding, hawait⟩ := hname n rfl
    obtain ⟨hopen, hrest⟩ := reads_bareFunction h [] (by simp) hb hd
    have hstarts := (scans_name hbinding.name ("() ".toList ++ (braced inner [] ++ ['\n']))
      (by rintro _ ⟨⟩; decide)).starts [' '] isGap_space
    refine .bind (.expectWord hword hstarts.opens) fun _ _ => ?_
    refine .bind (.eatPunct_other hstarts.opens (by nofun)) ?_
    rintro _ rfl
    refine .kind_bind hstarts.opens ?_
    dsimp only
    rw [if_pos hbinding.binding, if_neg (by decide)]
    refine .bind (reads_bindingName hbinding.binding (by simp [hawait, Context.module]) hstarts
      hopen.opens) fun _ _ => ?_
    exact .bind hrest fun x _ => (Reads.node _ _ _).mono fun _ _ => trivial

/-- A source whose statements are read up to its end has neither fault nor flaw. -/
theorem soundModule_of_reads {source : List Char} {Q : List Tree → Prop} (rest : List Char)
    (hopens : Opens source k) (hsource : hashbangAt ⟨source, 0⟩ = none)
    (h : Reads (statementsUntil (rulesFor source) atEnd (rulesFor source).bound true) .module source
      rest fun ts => repeatedExports ts = [] ∧ Q ts) :
    ∃ p, soundModule source = .ok p ∧ Q p.tree.children := by
  have hsound := (hopens 0 .start rfl).2
  obtain ⟨s₁, hadvance, hat, hcontext, hflaws, hdefaults⟩ : ∃ s₁,
      advance (startState source) = .ok () s₁ ∧ s₁.At source ∧ s₁.context = .module
      ∧ s₁.flaws = [] ∧ s₁.defaults = [] := by
    refine ⟨_, rfl, ⟨0, .start, rfl, hsound, rfl, rfl, rfl⟩, rfl, ?_, rfl⟩
    show (if (nextToken ⟨source, 0⟩ .start).flawed then _ else []) = _
    rw [hsound]
    rfl
  obtain ⟨ts, s₂, hrun, hreach, hexports, hQ⟩ := h s₁ hat hcontext
  -- The statements are read from the first token on, after the start of the text is passed.
  have hprogram : programRule (rulesFor source) (startState source)
      = .ok (.node .program ⟨0, s₂.token.start⟩ ts) s₂ := by
    have hnext : hashbangAt (startState source).next = none := hsource
    have hstart : (get : Parser State) (startState source)
        = .ok (startState source) (startState source) := rfl
    rw [programRule, run_bind hstart, hnext]
    dsimp only
    rw [pure_bind, run_bind hadvance, run_bind hrun]
    rfl
  refine ⟨⟨.node .program ⟨0, s₂.token.start⟩ ts, s₂.trivia.leading, []⟩, ?_, hQ⟩
  have hparse : parseModule source
      = .ok ⟨.node .program ⟨0, s₂.token.start⟩ ts, s₂.trivia.leading, []⟩ := by
    rw [parseModule, hprogram]
    simp only [Tree.children, hexports, hreach.flaws, hreach.defaults, hflaws, hdefaults]
    rfl
  rw [soundModule, hparse]
  rfl

/-- The exported function as a statement. -/
theorem reads_exportStatement {name : Option String}
    (hname : ∀ n ∈ name, IsBinding n ∧ n ≠ "await") (h : AsStatements inner)
    (hb : inner.length < b) (hd : inner.length < d) :
    Opens (exportOf name inner) (.word "export")
      ∧ Reads (statementRule (rules b d) .list) .module (exportOf name inner) ['\n']
        fun t => ∃ span value, t = .node .exportDefault span [value] := by
  have hfunction := fun begin => reads_functionFrom hname h hb hd begin
  have hdefault := (scans_name (w := "default") (by decide)
    (" function".toList ++ ' ' :: ((name.getD "").toList ++ ("() ".toList
      ++ (braced inner [] ++ ['\n'])))) (by rintro _ ⟨⟩; decide)).starts [' '] isGap_space
  have hexport := (scans_name (w := "export") (by decide)
    (' ' :: ("default".toList ++ (" function".toList ++ ' ' :: ((name.getD "").toList
      ++ ("() ".toList ++ (braced inner [] ++ ['\n']))))))
    (by rintro _ ⟨⟩; decide)).starts [] (by simp)
  refine ⟨hexport.opens, reads_statement hexport ?_⟩
  refine .start_bind fun _ => .kind_bind hexport.opens (.start_bind fun begin => ?_)
  refine .bind (.advanceKeyword hexport hdefault.opens) fun _ _ => .kind_bind hdefault.opens ?_
  refine .bind (.advanceKeyword hdefault (hfunction 0).1.opens) fun _ _ => ?_
  refine .bind (.plainToken (hfunction 0).1) fun t _ => ?_
  have hvalue : Reads (defaultValue (rules b d) []) .module
      (" function".toList ++ ' ' :: ((name.getD "").toList ++ ("() ".toList
        ++ (braced inner [] ++ ['\n'])))) ['\n'] (·.2 = true) :=
    .start_bind fun begin => .kind_bind (hfunction 0).1.opens <|
      .bind (hfunction begin).2 fun f _ => .pure rfl
  refine .bind hvalue ?_
  rintro ⟨value, _⟩ rfl
  exact (Reads.node _ _ _).mono fun t ⟨span, ht⟩ => ⟨span, _, ht⟩

/-- A module of one exported function has neither fault nor flaw if the body of the function is read
as statements. -/
theorem soundModule_exportOf {name : Option String}
    (hname : ∀ n ∈ name, IsBinding n ∧ n ≠ "await") (h : AsStatements inner) :
    ∃ p, soundModule (exportOf name inner) = .ok p := by
  -- The rules of a source reach as deep as it is long, and the body is shorter than that.
  obtain ⟨bound, hbound, hinner⟩ : ∃ bound, (exportOf name inner).length + 16 = bound + 2
      ∧ inner.length < bound :=
    ⟨(exportOf name inner).length + 14, rfl, Nat.lt_of_lt_of_le (length_lt_exportOf name inner)
      (Nat.le_add_right _ _)⟩
  obtain ⟨hopens, hstatement⟩ := reads_exportStatement hname h (b := bound + 2) (d := bound + 1)
    (by omega) (by omega)
  have hend : ∀ prologue, Reads (statementsUntil (rules (bound + 2) (bound + 2)) atEnd (bound + 1)
      prologue) .module ['\n'] ['\n'] (· = []) := fun prologue => by
    refine .bind (.atEnd opens_final) ?_
    rintro _ rfl
    exact .pure rfl
  refine (soundModule_of_reads (Q := fun _ => True) ['\n'] hopens rfl ?_).imp fun _ h => h.1
  rw [rulesFor, hbound, bound_rules]
  refine .bind (.atEnd hopens) ?_
  rintro _ rfl
  refine .bind .get fun s _ => .bind hstatement ?_
  rintro _ ⟨span, value, rfl⟩
  refine .bind (hend false) ?_
  rintro _ rfl
  exact .pure ⟨rfl, trivial⟩

end

end Reactive.Script.Parser
