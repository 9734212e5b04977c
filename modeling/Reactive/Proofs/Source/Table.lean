/-
  The expressions of a template and the table beside it.

  Building a template threads the expressions met so far through every text and attribute. Each
  builder that succeeds adds just the expressions of what it has built, in the order of the walk,
  numbered from those that were there; a walk over the finished nodes therefore meets the table
  again. What is added has been trimmed and checked, and the literals between the expressions
  hold no brace.
-/
import Reactive.Facts.Analyze
import Reactive.Proofs.Source.Fragment
import Reactive.Source.Template
import Mathlib.Data.List.Nodup

namespace Reactive

/-- The texts of a node. -/
def Node.texts (n : Node) : List String :=
  n.fold (fun _ _ children => children.flatten) (fun value => [value]) (fun _ => [])

theorem Node.expressions_element (tag : String) (attributes : List Attribute)
    (children : List Node) : (Node.element tag attributes children).expressions
      = attributes.flatMap Attribute.expressions ++ children.flatMap Node.expressions := by
  rw [expressions, fold, foldAll_eq_map]
  rfl

theorem Node.texts_element (tag : String) (attributes : List Attribute) (children : List Node) :
    (Node.element tag attributes children).texts = children.flatMap Node.texts := by
  rw [texts, fold, foldAll_eq_map]
  rfl

namespace Text

/-! ## Trimmed texts -/

theorem trim_eq_self {cs : List Char} (hfirst : ∀ c ∈ cs.head?, isBlank c = false)
    (hlast : ∀ c ∈ cs.getLast?, isBlank c = false) : trim cs = cs := by
  have hleft : trimLeft cs = cs := by
    cases cs with
    | nil => rfl
    | cons c cs => rw [trimLeft, List.dropWhile_cons_of_neg (by simp [hfirst c rfl])]
  have hright : cs.reverse.dropWhile isBlank = cs.reverse := by
    rw [← List.head?_reverse] at hlast
    cases hcs : cs.reverse with
    | nil => rfl
    | cons c rest => rw [List.dropWhile_cons_of_neg (by simp [hlast c (by rw [hcs]; rfl)])]
  rw [trim, hleft, trimRight, hright, List.reverse_reverse]

/-- What is left by trimming starts and ends with no blank. -/
theorem trim_trim (cs : List Char) : trim (trim cs) = trim cs := by
  have hlast : ∀ c ∈ (trim cs).getLast?, isBlank c = false := by
    intro c hc
    rw [trim, trimRight, List.getLast?_reverse] at hc
    have hblank := List.head?_dropWhile_not isBlank (trimLeft cs).reverse
    rw [hc] at hblank
    simpa using hblank
  have hfirst : ∀ c ∈ (trim cs).head?, isBlank c = false := by
    intro c hc
    -- The front is trimmed first, and cutting the end off it leaves its first character.
    obtain ⟨rest, hrest⟩ := List.head?_eq_some_iff.mp hc
    have hpart : trim cs <+: trimLeft cs := by
      rw [trim, trimRight, ← List.reverse_suffix, List.reverse_reverse]
      exact List.dropWhile_suffix isBlank
    obtain ⟨more, hmore⟩ := hpart
    have hblank := List.head?_dropWhile_not isBlank cs
    rw [← trimLeft, ← hmore, hrest] at hblank
    simpa using hblank
  exact trim_eq_self hfirst hlast

end Text

namespace Source

open Reactive.Markup Reactive.Text

/-! ## Builders that succeed -/

section

variable {α β : Type} {known known' : List Expression}

/-- A builder after another one has succeeded: so have both, one after the other. -/
theorem bind_inv {m : TemplateM α} {f : α → TemplateM β} {b : β}
    (h : (m >>= f).run known = .ok (b, known')) :
    ∃ a middle, m.run known = .ok (a, middle) ∧ (f a).run middle = .ok (b, known') := by
  rw [StateT.run_bind] at h
  cases hm : m.run known with
  | error e =>
    rw [hm] at h
    cases h
  | ok r =>
    rw [hm] at h
    exact ⟨r.1, r.2, rfl, h⟩

theorem pure_inv {a b : α} (h : (pure a : TemplateM α).run known = .ok (b, known')) :
    a = b ∧ known = known' := by
  cases h
  exact ⟨rfl, rfl⟩

/-- What cannot add expressions has succeeded by itself. -/
theorem lift_inv {x : Except CompileError α} {a : α}
    (h : (liftM x : TemplateM α).run known = .ok (a, known')) : x = .ok a ∧ known = known' := by
  cases x with
  | error e => cases h
  | ok b =>
    cases h
    exact ⟨rfl, rfl⟩

end

/-! ## What a builder adds -/

/-- The code of an expression was trimmed and checked, and something was left of it. -/
structure Accepted (e : Expression) : Prop where
  code_ne : e.code ≠ ""
  trimmed : trimString e.code = e.code
  checked : Script.checkExpression e.code = .ok ()

/-- The text can stand between expressions: there is some, and it holds no brace. -/
structure IsLiteral (text : String) : Prop where
  text_ne : text ≠ ""
  no_open : '\x7b' ∉ text.toList
  no_close : '\x7d' ∉ text.toList

/-- From some known expressions others were reached by adding accepted ones, which are numbered from
the known ones on. -/
structure Grown (known known' met : List Expression) : Prop where
  eq_append : known' = known ++ met
  numbered : ∀ (k : Nat) (e : Expression), met[k]? = some e →
    e.id = "expr_" ++ toString (known.length + k)
  accepted : ∀ e ∈ met, Accepted e

theorem Grown.refl (known : List Expression) : Grown known known [] :=
  ⟨(List.append_nil known).symm, by simp, by simp⟩

theorem Grown.trans {known middle known' first second : List Expression}
    (h : Grown known middle first) (h' : Grown middle known' second) :
    Grown known known' (first ++ second) := by
  refine ⟨?_, fun k e hk => ?_, ?_⟩
  · rw [h'.eq_append, h.eq_append, List.append_assoc]
  · rcases Nat.lt_or_ge k first.length with hlt | hle
    · rw [List.getElem?_append_left hlt] at hk
      exact h.numbered k e hk
    · rw [List.getElem?_append_right hle] at hk
      have hlength : known.length + k = middle.length + (k - first.length) := by
        rw [h.eq_append, List.length_append]
        omega
      rw [hlength]
      exact h'.numbered _ e hk
  · rw [List.forall_mem_append]
    exact ⟨h.accepted, h'.accepted⟩

/-- Nodes were built: their expressions were added, and their texts are literals. -/
structure Built (known known' : List Expression) (nodes : List Node) : Prop where
  grown : Grown known known' (nodes.flatMap Node.expressions)
  literal : ∀ text ∈ nodes.flatMap Node.texts, IsLiteral text

theorem Built.nil (known : List Expression) : Built known known [] := ⟨.refl known, by simp⟩

theorem Built.append {known middle known' : List Expression} {first second : List Node}
    (h : Built known middle first) (h' : Built middle known' second) :
    Built known known' (first ++ second) := by
  refine ⟨?_, ?_⟩
  · rw [List.flatMap_append]
    exact h.grown.trans h'.grown
  · rw [List.flatMap_append, List.forall_mem_append]
    exact ⟨h.literal, h'.literal⟩

/-- An element adds the expressions of its attributes and then those of its children. -/
theorem Built.element {known middle known' : List Expression} {tag : String}
    {attributes : List Attribute} {children : List Node}
    (h : Grown known middle (attributes.flatMap Attribute.expressions))
    (h' : Built middle known' children) :
    Built known known' [.element tag attributes children] := by
  refine ⟨?_, ?_⟩
  · rw [List.flatMap_singleton, Node.expressions_element]
    exact h.trans h'.grown
  · rw [List.flatMap_singleton, Node.texts_element]
    exact h'.literal

/-! ## Expressions -/

/-- Code that braces can hold: trimmed, and not empty. -/
def IsCode (code : String) : Prop := code ≠ "" ∧ trimString code = code

theorem isCode_trim {cs : List Char} (h : (trim cs).isEmpty = false) :
    IsCode (String.ofList (trim cs)) := by
  refine ⟨?_, ?_⟩
  · intro heq
    have hnil : trim cs = [] := by simpa using congrArg String.toList heq
    simp [hnil] at h
  · rw [trimString, String.toList_ofList, trim_trim]

variable {known known' : List Expression}

theorem grown_register {code : String} {e : Expression} (hcode : IsCode code)
    (h : (register code).run known = .ok (e, known')) : Grown known known' [e] := by
  unfold register at h
  cases hcheck : Script.checkExpression code with
  | error message =>
    rw [hcheck] at h
    cases h
  | ok u =>
    rw [hcheck] at h
    cases h
    refine ⟨rfl, fun k e hk => ?_, ?_⟩
    · cases k with
      | zero =>
        obtain rfl := Option.some.inj hk
        rfl
      | succ k => cases hk
    · rw [List.forall_mem_singleton]
      exact ⟨hcode.1, hcode.2, hcheck⟩

/-! ## Attributes -/

theorem isCode_of_classifyValue {value code : String}
    (h : classifyValue value = .ok (.expression code)) : IsCode code := by
  dsimp only [classifyValue] at h
  split at h
  · split at h
    · cases h
    · rename_i hne
      obtain rfl := Fragment.expression.inj (Except.ok.inj h)
      exact isCode_trim (Bool.eq_false_iff.mpr hne)
  · split at h
    · cases h
    · split at h <;> cases h

theorem isCode_of_literal {value text : String} (h : classifyValue value = .ok (.literal text))
    (hne : text.isEmpty = false) : IsCode text := by
  dsimp only [classifyValue] at h
  split at h
  · split at h <;> cases h
  · split at h
    · cases h
    · split at h
      · cases h
      · obtain rfl := Fragment.literal.inj (Except.ok.inj h)
        refine isCode_trim ?_
        rw [Bool.eq_false_iff] at hne ⊢
        intro hempty
        exact hne (by simp [List.isEmpty_iff.mp hempty])

theorem isCode_of_handlerCode {value code : String} (h : handlerCode value = .ok code) :
    IsCode code := by
  unfold handlerCode at h
  cases hclass : classifyValue value with
  | error e =>
    rw [hclass] at h
    cases h
  | ok fragment =>
    rw [hclass] at h
    cases fragment with
    | expression code' =>
      cases h
      exact isCode_of_classifyValue hclass
    | literal text =>
      by_cases hempty : text.isEmpty = true
      · simp only [bind, Except.bind, hempty, if_true] at h
        cases h
      · simp only [bind, Except.bind, if_neg hempty] at h
        cases h
        exact isCode_of_literal hclass (Bool.eq_false_iff.mpr hempty)

theorem grown_plainValue {value : String} {v : AttributeValue}
    (h : (plainValue value).run known = .ok (v, known')) : Grown known known' v.expressions := by
  obtain ⟨fragment, middle, hread, h⟩ := bind_inv h
  obtain ⟨hclass, rfl⟩ := lift_inv hread
  cases fragment with
  | expression code =>
    obtain ⟨e, middle, hregister, h⟩ := bind_inv h
    obtain ⟨rfl, rfl⟩ := pure_inv h
    exact grown_register (isCode_of_classifyValue hclass) hregister
  | literal text =>
    obtain ⟨rfl, rfl⟩ := pure_inv h
    exact .refl known

theorem grown_buildAttribute {name value : String} {a : Attribute}
    (h : (buildAttribute name value).run known = .ok (a, known')) :
    Grown known known' a.expressions := by
  unfold buildAttribute at h
  split at h
  · obtain ⟨code, middle, hread, h⟩ := bind_inv h
    obtain ⟨hcode, rfl⟩ := lift_inv hread
    obtain ⟨handler, middle, hregister, h⟩ := bind_inv h
    obtain ⟨rfl, rfl⟩ := pure_inv h
    exact grown_register (isCode_of_handlerCode hcode) hregister
  · obtain ⟨v, middle, hvalue, h⟩ := bind_inv h
    obtain ⟨rfl, rfl⟩ := pure_inv h
    exact grown_plainValue hvalue

theorem grown_buildAttributes {regions : List (List Char)} {attrs : List Attr}
    {attributes : List Attribute}
    (h : (buildAttributes regions attrs).run known = .ok (attributes, known')) :
    Grown known known' (attributes.flatMap Attribute.expressions) := by
  unfold buildAttributes at h
  induction attrs generalizing known attributes with
  | nil =>
    obtain ⟨rfl, rfl⟩ := pure_inv h
    exact .refl known
  | cons attr attrs ih =>
    rw [List.mapM_cons] at h
    obtain ⟨a, middle, hattribute, h⟩ := bind_inv h
    obtain ⟨more, middle', hmore, h⟩ := bind_inv h
    obtain ⟨rfl, rfl⟩ := pure_inv h
    rw [List.flatMap_cons]
    exact (grown_buildAttribute hattribute).trans (ih hmore)

/-! ## Texts -/

/-- A fragment as splitting leaves it. -/
def Fragment.Sound : Fragment → Prop
  | .literal text => IsLiteral text
  | .expression code => IsCode code

/-- The fragments of a text behind a literal without braces: literals have no brace, and code is
trimmed. -/
theorem sound_of_splitFrom {literal cs : List Char} {fs : List Fragment}
    (hliteral : ∀ c ∈ literal, c ≠ '\x7b' ∧ c ≠ '\x7d') (h : splitFrom literal cs = .ok fs) :
    ∀ f ∈ fs, f.Sound := by
  have hflush (literal : List Char) (hliteral : ∀ c ∈ literal, c ≠ '\x7b' ∧ c ≠ '\x7d')
      (rest : List Fragment) (hrest : ∀ f ∈ rest, f.Sound) :
      ∀ f ∈ flush literal rest, f.Sound := by
    unfold flush
    split
    · exact hrest
    · rename_i hne
      refine List.forall_mem_cons.mpr ⟨⟨?_, ?_, ?_⟩, hrest⟩
      · intro heq
        exact hne (by simpa using congrArg String.toList heq)
      · intro hmem
        exact (hliteral _ (by simpa using hmem)).1 rfl
      · intro hmem
        exact (hliteral _ (by simpa using hmem)).2 rfl
  fun_induction splitFrom literal cs generalizing fs with
  | case1 literal =>
    cases h
    exact hflush literal hliteral [] (by simp)
  | case2 => cases h
  | case3 => cases h
  | case4 literal cs r rest code hcode _ _ =>
    rename_i ih
    cases hrest : splitFrom [] rest with
    | error fault =>
      rw [hrest] at h
      cases h
    | ok more =>
      rw [hrest] at h
      cases h
      refine hflush literal hliteral _ (List.forall_mem_cons.mpr ⟨?_, ih (by simp) hrest⟩)
      exact isCode_trim (Bool.eq_false_iff.mpr hcode)
  | case5 => cases h
  | case6 literal c cs hopen hclose ih =>
    exact ih (List.forall_mem_cons.mpr ⟨⟨hopen, hclose⟩, hliteral⟩) h

theorem sound_of_splitFragments {text : String} {site : BraceSite} {fs : List Fragment}
    (h : splitFragments text site = .ok fs) : ∀ f ∈ fs, f.Sound := by
  unfold splitFragments at h
  split at h
  · rename_i hsplit
    cases h
    exact sound_of_splitFrom (by simp) hsplit
  · cases h

theorem built_fragmentNode {f : Fragment} {n : Node} (hf : f.Sound)
    (h : (fragmentNode f).run known = .ok (n, known')) : Built known known' [n] := by
  cases f with
  | literal text =>
    obtain ⟨rfl, rfl⟩ := pure_inv h
    exact ⟨.refl known, List.forall_mem_singleton.mpr hf⟩
  | expression code =>
    obtain ⟨e, middle, hregister, h⟩ := bind_inv h
    obtain ⟨rfl, rfl⟩ := pure_inv h
    exact ⟨grown_register hf hregister, by simp [Node.texts, Node.fold]⟩

theorem built_fragments {fs : List Fragment} {nodes : List Node} (hfs : ∀ f ∈ fs, f.Sound)
    (h : (fs.mapM fragmentNode).run known = .ok (nodes, known')) : Built known known' nodes := by
  induction fs generalizing known nodes with
  | nil =>
    obtain ⟨rfl, rfl⟩ := pure_inv h
    exact .nil known
  | cons f fs ih =>
    obtain ⟨hf, hfs⟩ := List.forall_mem_cons.mp hfs
    rw [List.mapM_cons] at h
    obtain ⟨n, middle, hnode, h⟩ := bind_inv h
    obtain ⟨more, middle', hmore, h⟩ := bind_inv h
    obtain ⟨rfl, rfl⟩ := pure_inv h
    exact (built_fragmentNode hf hnode).append (ih hfs hmore)

theorem built_buildText {text : String} {n : Option Node}
    (h : (buildText text).run known = .ok (n, known')) : Built known known' n.toList := by
  unfold buildText at h
  split at h
  · obtain ⟨rfl, rfl⟩ := pure_inv h
    exact .nil known
  · obtain ⟨fs, middle, hread, h⟩ := bind_inv h
    obtain ⟨hsplit, rfl⟩ := lift_inv hread
    have hsound := sound_of_splitFragments hsplit
    split at h
    · obtain ⟨node, middle, hnode, h⟩ := bind_inv h
      obtain ⟨rfl, rfl⟩ := pure_inv h
      exact built_fragmentNode (hsound _ List.mem_cons_self) hnode
    · obtain ⟨nodes, middle, hnodes, h⟩ := bind_inv h
      obtain ⟨rfl, rfl⟩ := pure_inv h
      exact .element (.refl known) (built_fragments hsound hnodes)

/-! ## Nodes -/

mutual

theorem built_buildNode {regions : List (List Char)} {known known' : List Expression} (d : Dom)
    {n : Option Node} (h : (buildNode regions d).run known = .ok (n, known')) :
    Built known known' n.toList := by
  cases d with
  | element name attrs children =>
    rw [buildNode] at h
    obtain ⟨attributes, middle, hattributes, h⟩ := bind_inv h
    obtain ⟨nodes, middle', hnodes, h⟩ := bind_inv h
    obtain ⟨rfl, rfl⟩ := pure_inv h
    exact .element (grown_buildAttributes hattributes) (built_buildNodes children hnodes)
  | text value =>
    rw [buildNode] at h
    exact built_buildText h
  | comment =>
    rw [buildNode] at h
    obtain ⟨rfl, rfl⟩ := pure_inv h
    exact .nil known

/-- Building nodes adds the expressions that a walk over them meets. -/
theorem built_buildNodes {regions : List (List Char)} {known known' : List Expression}
    (ds : List Dom) {nodes : List Node}
    (h : (buildNodes regions ds).run known = .ok (nodes, known')) :
    Built known known' nodes := by
  cases ds with
  | nil =>
    rw [buildNodes] at h
    obtain ⟨rfl, rfl⟩ := pure_inv h
    exact .nil known
  | cons d ds =>
    rw [buildNodes] at h
    obtain ⟨n, middle, hnode, h⟩ := bind_inv h
    obtain ⟨more, middle', hmore, h⟩ := bind_inv h
    obtain ⟨rfl, rfl⟩ := pure_inv h
    exact (built_buildNode d hnode).append (built_buildNodes ds hmore)

end

/-! ## Templates -/

/-- The table of a template is the walk over its nodes. -/
structure Tabulated (t : Template) : Prop where
  /-- The table lists what a walk over the nodes meets, attributes of an element before its
  children. -/
  listed : t.expressions = t.nodes.flatMap Node.expressions
  /-- No expression is met twice. -/
  once : t.expressions.Nodup
  numbered : ∀ (k : Nat) (e : Expression), t.expressions[k]? = some e → e.id = "expr_" ++ toString k
  accepted : ∀ e ∈ t.expressions, Accepted e
  literal : ∀ text ∈ t.nodes.flatMap Node.texts, IsLiteral text
  /-- The names that the template refers to are the free names of the table. -/
  referred : ∀ name, name ∈ t.referredNames ↔
    ∃ e ∈ t.expressions, name ∈ Script.freeNames e.code

/-- Expressions that are numbered differ. -/
theorem nodup_of_numbered {es : List Expression}
    (h : ∀ (k : Nat) (e : Expression), es[k]? = some e → e.id = "expr_" ++ toString k) :
    es.Nodup := by
  rw [List.nodup_iff_getElem?_ne_getElem?]
  intro i j hij hj heq
  obtain ⟨e, he⟩ : ∃ e, es[j]? = some e := ⟨_, List.getElem?_eq_getElem hj⟩
  have hid : "expr_" ++ toString i = "expr_" ++ toString j :=
    (h i e (heq.trans he)).symm.trans (h j e he)
  have hdigits : Nat.toDigits 10 i = Nat.toDigits 10 j := by
    simpa using congrArg String.toList hid
  have hvalue : i = j := by
    simpa [Nat.ofDigitChars_toDigits] using congrArg (Nat.ofDigitChars 10 · 0) hdigits
  omega

/-- Whatever document a template is built from, and whatever texts its placeholders stand for: its
table lists the expressions that a walk over its nodes meets, each once and under its number, all
of them checked, and the texts between them hold no brace. -/
theorem buildTemplate_tabulated {regions : List (List Char)} {document : List Dom} {t : Template}
    (h : buildTemplate regions document = .ok t) : Tabulated t := by
  unfold buildTemplate at h
  cases hrun : (buildNodes regions (unwrapNodes document)).run [] with
  | error e =>
    rw [hrun] at h
    cases h
  | ok r =>
    rw [hrun] at h
    cases h
    obtain ⟨⟨hlisted, hnumbered, haccepted⟩, hliteral⟩ := built_buildNodes _ hrun
    rw [List.nil_append] at hlisted
    have hnumbered' : ∀ (k : Nat) (e : Expression), r.2[k]? = some e →
        e.id = "expr_" ++ toString k := by
      intro k e hk
      rw [hlisted] at hk
      simpa using hnumbered k e hk
    refine ⟨hlisted, nodup_of_numbered hnumbered', hnumbered', ?_, hliteral, ?_⟩
    · show ∀ e ∈ r.2, Accepted e
      rw [hlisted]
      exact haccepted
    · intro name
      show name ∈ Template.referredNames _ ↔ ∃ e ∈ r.2, _
      rw [Template.referredNames, List.mem_eraseDups, List.mem_flatMap, hlisted]

/-- Under the wrappers of a document stand an element with an attribute of each kind, a text with a
placeholder in it, a comment, a blank text and a text that is one expression. -/
theorem buildTemplate_tabulated_list :
    let document : List Dom := [.element "html" [] [.element "head" [] [], .element "body" []
      [.element "p" [⟨"class", "a"⟩, ⟨"title", "\x7b t \x7d"⟩, ⟨"on:click", " go "⟩]
        [.text "n: __MS_EXPR_0__!", .comment, .text " \n "], .text "\x7bx\x7d"]]]
    ∃ t, buildTemplate ["\x7b n \x7d".toList] document = .ok t
      ∧ t.expressions.map (fun e => (e.id, e.code))
        = [("expr_0", "t"), ("expr_1", "go"), ("expr_2", "n"), ("expr_3", "x")]
      ∧ Tabulated t := by
  intro document
  have hbuilt : (buildTemplate ["\x7b n \x7d".toList] document).toOption.map
      (·.expressions.map fun e => (e.id, e.code))
        = some [("expr_0", "t"), ("expr_1", "go"), ("expr_2", "n"), ("expr_3", "x")] := by
    decide +kernel
  cases ht : buildTemplate ["\x7b n \x7d".toList] document with
  | error e =>
    rw [ht] at hbuilt
    cases hbuilt
  | ok t =>
    rw [ht] at hbuilt
    exact ⟨t, rfl, Option.some.inj hbuilt, buildTemplate_tabulated ht⟩

end Source

end Reactive
