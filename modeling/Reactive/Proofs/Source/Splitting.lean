/-
  What splitting accepts.

  Read from left to right, a text is a part that can be read, made of characters other than braces
  and of regions that are not blank inside, and a rest at which reading is stuck. The two are
  determined by the text. If nothing is left, splitting gives fragments in normal form, and writing
  them down again gives the text; otherwise the rest says which fault there is. The other way
  around, fragments in normal form are what splitting makes of the text that they are written as.
-/
import Reactive.Proofs.Source.Padding
import Reactive.Proofs.Source.Table
import Mathlib.Data.List.Chain
import Mathlib.Data.List.TakeWhile

namespace Reactive.Text

/-! ## Blanks around a text -/

theorem trim_blank_append {a : List Char} (ha : allBlank a = true) (cs : List Char) :
    trim (a ++ cs) = trim cs := by
  rw [trim, trim, trimLeft, List.dropWhile_append_of_pos (List.all_eq_true.mp ha), trimLeft]

theorem trimRight_append_blank (cs : List Char) {a : List Char} (ha : allBlank a = true) :
    trimRight (cs ++ a) = trimRight cs := by
  rw [trimRight, List.reverse_append, List.dropWhile_append_of_pos, trimRight]
  simpa [allBlank] using ha

/-- Blanks around a trimmed text are what trimming takes away. -/
theorem trim_padded {before code after : List Char} (hbefore : allBlank before = true)
    (hafter : allBlank after = true) (hcode : trim code = code) (hne : code ≠ []) :
    trim (before ++ code ++ after) = code := by
  have hleft : trimLeft code ≠ [] := by
    intro hnil
    rw [trim, hnil] at hcode
    exact hne hcode.symm
  rw [List.append_assoc, trim_blank_append hbefore, trim, trimLeft, List.dropWhile_append,
    if_neg (by simpa [trimLeft] using hleft), trimRight_append_blank _ hafter]
  exact hcode

/-- A text is what trimming leaves, with blanks around it. -/
theorem exists_trim (cs : List Char) : ∃ before after, allBlank before = true
    ∧ allBlank after = true ∧ cs = before ++ trim cs ++ after := by
  have hall (l : List Char) : allBlank (l.takeWhile isBlank) = true :=
    List.all_eq_true.mpr fun c hc => List.mem_takeWhile_imp hc
  refine ⟨cs.takeWhile isBlank, ((trimLeft cs).reverse.takeWhile isBlank).reverse, hall cs, ?_, ?_⟩
  · rw [allBlank, List.all_reverse]
    exact hall (trimLeft cs).reverse
  · rw [trim, trimRight, List.append_assoc, ← List.reverse_append, List.takeWhile_append_dropWhile,
      List.reverse_reverse, trimLeft, List.takeWhile_append_dropWhile]

end Reactive.Text

namespace Reactive.Source

open Reactive.Text

/-! ## Reading from left to right -/

/-- The character is no brace. -/
def Unbraced (c : Char) : Prop := c ≠ '\x7b' ∧ c ≠ '\x7d'

/-- The first text can be read in front of the second one: it is made of characters other than
braces and of regions that are not blank inside. -/
inductive Readable : List Char → List Char → Prop
  | nil (rest : List Char) : Readable [] rest
  | char {c : Char} {p rest : List Char} (hc : Unbraced c) (h : Readable p rest) :
      Readable (c :: p) rest
  | region {r p rest : List Char} (hr : RegionAt (r ++ (p ++ rest)) r (p ++ rest))
      (hblank : allBlank (inside r) = false) (h : Readable p rest) : Readable (r ++ p) rest

/-- The fault that a text starts with: a closing brace, an opening one that nothing balances, or a
region that is blank inside. -/
inductive Stuck : List Char → SplitFault → Prop
  | close (rest : List Char) : Stuck ('\x7d' :: rest) .closeBrace
  | unbalanced {rest : List Char} (h : region? ('\x7b' :: rest) = none) :
      Stuck ('\x7b' :: rest) .openBrace
  | blank {cs r rest : List Char} (hr : RegionAt cs r rest)
      (hblank : allBlank (inside r) = true) : Stuck cs .emptyExpression

/-- The longest part of a text that can be read, and the rest. -/
structure Decomposes (text p rest : List Char) : Prop where
  text_eq : text = p ++ rest
  readable : Readable p rest
  longest : ∀ p' rest', text = p' ++ rest' → Readable p' rest' → p'.length ≤ p.length

theorem RegionAt.unique {cs r rest r' rest' : List Char} (h : RegionAt cs r rest)
    (h' : RegionAt cs r' rest') : r = r' ∧ rest = rest' :=
  Prod.mk.inj (Option.some.inj (h.2.symm.trans h'.2))

/-- Reading goes on until nothing is left or a fault is met. -/
theorem exists_readable (text : List Char) :
    ∃ p rest, text = p ++ rest ∧ Readable p rest ∧ (rest = [] ∨ ∃ fault, Stuck rest fault) := by
  match text with
  | [] => exact ⟨[], [], rfl, .nil _, .inl rfl⟩
  | c :: cs =>
    by_cases hopen : c = '\x7b'
    · subst hopen
      cases hregion : region? ('\x7b' :: cs) with
      | none => exact ⟨[], _, rfl, .nil _, .inr ⟨_, .unbalanced hregion⟩⟩
      | some x =>
        obtain ⟨r, behind⟩ := x
        have hat : RegionAt ('\x7b' :: cs) r behind := ⟨rfl, hregion⟩
        cases hblank : allBlank (inside r) with
        | true => exact ⟨[], _, rfl, .nil _, .inr ⟨_, .blank hat hblank⟩⟩
        | false =>
          have hlength : behind.length < ('\x7b' :: cs).length := length_of_regionFrom hregion
          obtain ⟨p, rest, rfl, hread, hend⟩ := exists_readable behind
          refine ⟨r ++ p, rest, ?_, .region (hat.append _) hblank hread, hend⟩
          rw [hat.append_eq, List.append_assoc]
    by_cases hclose : c = '\x7d'
    · subst hclose
      exact ⟨[], _, rfl, .nil _, .inr ⟨_, .close cs⟩⟩
    · obtain ⟨p, rest, rfl, hread, hend⟩ := exists_readable cs
      exact ⟨c :: p, rest, rfl, .char ⟨hopen, hclose⟩ hread, hend⟩
termination_by text.length
decreasing_by
  · exact hlength
  · exact Nat.lt_succ_self _

theorem not_stuck_of_unbraced {c : Char} {cs : List Char} {fault : SplitFault} (hc : Unbraced c) :
    ¬Stuck (c :: cs) fault := by
  rintro (_ | _ | ⟨hr, -⟩)
  · exact hc.2 rfl
  · exact hc.1 rfl
  · exact hc.1 (Option.some.inj hr.1)

theorem not_stuck_of_regionAt {cs r rest : List Char} {fault : SplitFault} (hr : RegionAt cs r rest)
    (hblank : allBlank (inside r) = false) : ¬Stuck cs fault := by
  rintro (_ | hnone | ⟨hr', hblank'⟩)
  · exact absurd hr.1 (by simp)
  · exact absurd (hnone.symm.trans hr.2) (by simp)
  · rw [(hr.unique hr').1, hblank'] at hblank
    cases hblank

/-- Nothing can be read past the place where reading is stuck: each step is determined by the text
that it stands before. -/
theorem Readable.length_le {p rest p' rest' : List Char} (h' : Readable p' rest')
    (h : Readable p rest) (hend : rest = [] ∨ ∃ fault, Stuck rest fault)
    (heq : p' ++ rest' = p ++ rest) : p'.length ≤ p.length := by
  induction h' generalizing p with
  | nil => exact Nat.zero_le _
  | @char c p' rest' hc h' ih =>
    cases h with
    | nil =>
      rcases hend with rfl | ⟨fault, hstuck⟩
      · cases heq
      · rw [List.nil_append] at heq
        exact absurd (heq ▸ hstuck) (not_stuck_of_unbraced hc)
    | @char d p _ hd h =>
      obtain ⟨-, htail⟩ := List.cons.inj heq
      exact Nat.succ_le_succ (ih h htail)
    | @region r p _ hr hblank h =>
      rw [List.append_assoc] at heq
      have hhead := hr.1
      rw [← heq] at hhead
      exact absurd (Option.some.inj hhead) hc.1
  | @region r' p' rest' hr' hblank' h' ih =>
    rw [List.append_assoc] at heq
    cases h with
    | nil =>
      rcases hend with rfl | ⟨fault, hstuck⟩
      · have hnil := (List.append_eq_nil_iff.mp heq).1
        exact absurd hnil (ne_nil_of_regionFrom hr'.2)
      · rw [List.nil_append] at heq
        exact absurd (heq ▸ hstuck) (not_stuck_of_regionAt hr' hblank')
    | @char d p _ hd h =>
      have hhead := hr'.1
      rw [heq] at hhead
      exact absurd (Option.some.inj hhead) hd.1
    | @region r p _ hr hblank h =>
      rw [List.append_assoc] at heq
      rw [heq] at hr'
      obtain ⟨rfl, hrest⟩ := hr'.unique hr
      rw [List.length_append, List.length_append]
      exact Nat.add_le_add_left (ih h hrest) _

/-- A text has exactly one decomposition, and it ends where reading is stuck. -/
theorem decomposes_iff {text p rest : List Char} : Decomposes text p rest ↔
    text = p ++ rest ∧ Readable p rest ∧ (rest = [] ∨ ∃ fault, Stuck rest fault) := by
  constructor
  · intro h
    obtain ⟨p', rest', htext, hread, hend⟩ := exists_readable text
    have hlength := Nat.le_antisymm
      (h.readable.length_le hread hend (h.text_eq.symm.trans htext)) (h.longest _ _ htext hread)
    obtain ⟨rfl, rfl⟩ := List.append_inj (h.text_eq.symm.trans htext) hlength
    exact ⟨htext, hread, hend⟩
  · rintro ⟨htext, hread, hend⟩
    exact ⟨htext, hread, fun p' rest' htext' hread' =>
      hread'.length_le hread hend (htext'.symm.trans htext)⟩

theorem Decomposes.unique {text p rest p' rest' : List Char} (h : Decomposes text p rest)
    (h' : Decomposes text p' rest') : p = p' ∧ rest = rest' :=
  List.append_inj (h.text_eq.symm.trans h'.text_eq)
    (Nat.le_antisymm (h'.longest _ _ h.text_eq h.readable) (h.longest _ _ h'.text_eq h'.readable))

/-! ## Faults -/

theorem splitFrom_stuck {rest : List Char} {fault : SplitFault} (h : Stuck rest fault)
    (literal : List Char) : splitFrom literal rest = .error fault := by
  cases h with
  | close rest => rw [splitFrom, if_neg (by decide), if_pos rfl]
  | unbalanced hnone =>
    rw [splitFrom, if_pos rfl]
    split
    · rfl
    · rename_i hsome
      exact absurd (hnone.symm.trans hsome) (by simp)
  | blank hr hblank => rw [splitFrom_region hr, if_pos hblank]

/-- The fault behind what can be read is the fault of the whole text. -/
theorem Readable.splitFrom_error {p rest : List Char} {fault : SplitFault} (h : Readable p rest)
    (hrest : ∀ literal, splitFrom literal rest = .error fault) (literal : List Char) :
    splitFrom literal (p ++ rest) = .error fault := by
  induction h generalizing literal with
  | nil rest => exact hrest literal
  | @char c p rest hc h ih =>
    rw [List.cons_append, splitFrom, if_neg hc.1, if_neg hc.2]
    exact ih hrest _
  | @region r p rest hr hblank h ih =>
    rw [List.append_assoc, splitFrom_region hr, if_neg (by simp [hblank]), splitChars, ih hrest]
    rfl

/-! ## Fragments as they are written -/

/-- A fragment as it stands in a text: a literal, or code in braces with blanks around it. -/
inductive Written where
  | literal (text : List Char)
  | region (before code after : List Char)
deriving DecidableEq, Repr

namespace Written

/-- The text that is written. -/
def text : Written → List Char
  | .literal t => t
  | .region before code after => braced before code after

/-- The fragment that is meant. -/
def fragment : Written → Fragment
  | .literal t => .literal (String.ofList t)
  | .region _ code _ => .expression (String.ofList code)

/-- Text and not code. -/
def isLiteral : Written → Bool
  | .literal _ => true
  | .region .. => false

/-- A literal is not empty and holds no brace; code is not empty, is trimmed and makes a region, and
around it stand blanks. -/
def Sound : Written → Prop
  | .literal t => t ≠ [] ∧ ∀ c ∈ t, Unbraced c
  | .region before code after => allBlank before = true ∧ allBlank after = true
      ∧ code ≠ [] ∧ trim code = code ∧ IsRegion (braced [] code [])

end Written

/-- Fragments in normal form: each of them is sound, and no two literals stand together. -/
structure Normal (ws : List Written) : Prop where
  sound : ∀ w ∈ ws, w.Sound
  apart : ws.IsChain fun a b => ¬(a.isLiteral = true ∧ b.isLiteral = true)

theorem Normal.cons_region {before code after : List Char} {ws : List Written} (h : Normal ws)
    (hsound : (Written.region before code after).Sound) :
    Normal (.region before code after :: ws) := by
  refine ⟨List.forall_mem_cons.mpr ⟨hsound, h.sound⟩, ?_⟩
  exact List.isChain_cons.mpr ⟨fun w _ hw => Bool.false_ne_true hw.1, h.apart⟩

theorem Normal.of_cons {w : Written} {ws : List Written} (h : Normal (w :: ws)) : Normal ws :=
  ⟨fun x hx => h.sound x (List.mem_cons_of_mem _ hx), (List.isChain_cons.mp h.apart).2⟩

/-- Behind a region a literal can only stand in front of another region or of nothing. -/
theorem Normal.cons_literal {t : List Char} {ws : List Written} (h : Normal ws)
    (hsound : (Written.literal t).Sound) (hws : ∀ w ∈ ws.head?, w.isLiteral = false) :
    Normal (.literal t :: ws) := by
  refine ⟨List.forall_mem_cons.mpr ⟨hsound, h.sound⟩, List.isChain_cons.mpr ⟨?_, h.apart⟩⟩
  rintro w hw ⟨-, hliteral⟩
  rw [hws w hw] at hliteral
  cases hliteral

/-- A region that is not blank inside is sound code with blanks around it. -/
theorem RegionAt.exists_written {cs r rest : List Char} (h : RegionAt cs r rest)
    (hblank : allBlank (inside r) = false) :
    ∃ before after, (Written.region before (trim (inside r)) after).Sound
      ∧ braced before (trim (inside r)) after = r := by
  obtain ⟨before, after, hbefore, hafter, hinside⟩ := exists_trim (inside r)
  have hbraced : braced before (trim (inside r)) after = r := by
    conv_rhs => rw [h.eq_braced, hinside]
    simp [braced]
  have hne : trim (inside r) ≠ [] := by
    rw [← isEmpty_trim] at hblank
    simpa using hblank
  refine ⟨before, after, ⟨hbefore, hafter, hne, trim_trim _, ?_⟩, hbraced⟩
  have hregion := h.append []
  rw [List.append_nil, ← hbraced] at hregion
  exact (isRegion_padded hbefore hafter _).mp hregion

/-- Sound code in braces is a region in front of any text, and not blank inside. -/
theorem Written.Sound.regionAt {before code after : List Char}
    (h : (Written.region before code after).Sound) (rest : List Char) :
    RegionAt (braced before code after ++ rest) (braced before code after) rest
      ∧ allBlank (inside (braced before code after)) = false
      ∧ trim (inside (braced before code after)) = code := by
  obtain ⟨hbefore, hafter, hne, htrim, hregion⟩ := h
  have hcode : trim (inside (braced before code after)) = code := by
    rw [inside_braced, trim_padded hbefore hafter htrim hne]
  refine ⟨RegionAt.append ((isRegion_padded hbefore hafter code).mpr hregion) rest, ?_, hcode⟩
  rw [← isEmpty_trim, hcode]
  simpa using hne

/-! ## Splitting what can be read -/

/-- What can be read to its end splits into fragments in normal form, which are written as the text
was; a literal read before joins the first one. -/
theorem Readable.splitFrom_ok {p : List Char} (h : Readable p []) {literal : List Char}
    (hliteral : ∀ c ∈ literal, Unbraced c) :
    ∃ ws, Normal ws ∧ ws.flatMap Written.text = literal.reverse ++ p
      ∧ splitFrom literal p = .ok (ws.map Written.fragment) := by
  generalize hrest : ([] : List Char) = rest at h
  induction h generalizing literal with
  | nil =>
    rw [splitFrom]
    cases literal with
    | nil => exact ⟨[], ⟨List.forall_mem_nil _, .nil⟩, rfl, rfl⟩
    | cons c literal =>
      refine ⟨[.literal (c :: literal).reverse], ⟨?_, .singleton _⟩, by simp [Written.text], rfl⟩
      rw [List.forall_mem_singleton]
      exact ⟨by simp, fun d hd => hliteral d (List.mem_reverse.mp hd)⟩
  | @char c p rest hc h ih =>
    obtain ⟨ws, hnormal, htext, hsplit⟩ :=
      ih (List.forall_mem_cons.mpr ⟨hc, hliteral⟩) hrest
    refine ⟨ws, hnormal, by simpa using htext, ?_⟩
    rw [splitFrom, if_neg hc.1, if_neg hc.2, hsplit]
  | @region r p rest hr hblank h ih =>
    subst hrest
    obtain ⟨ws, hnormal, htext, hsplit⟩ := ih (List.forall_mem_nil _) rfl
    obtain ⟨before, after, hsound, hbraced⟩ := hr.exists_written hblank
    have hregions := hnormal.cons_region hsound
    rw [List.append_nil] at hr
    rw [splitFrom_region hr, if_neg (by simp [hblank]), splitChars, hsplit]
    -- The literal that was read before the region is flushed in front of it.
    cases literal with
    | nil =>
      refine ⟨_, hregions, ?_, rfl⟩
      rw [List.flatMap_cons, htext, Written.text, hbraced]
      rfl
    | cons c literal =>
      have hfirst : (Written.literal (c :: literal).reverse).Sound :=
        ⟨by simp, fun d hd => hliteral d (List.mem_reverse.mp hd)⟩
      refine ⟨_, hregions.cons_literal hfirst (by rintro _ ⟨⟩; rfl), ?_, rfl⟩
      rw [List.flatMap_cons, List.flatMap_cons, htext, Written.text, Written.text, hbraced]
      rfl

/-- Fragments in normal form are what their text splits into; a literal read before must not join
them. -/
theorem Normal.splitFrom_eq {ws : List Written} (h : Normal ws) {literal : List Char}
    (hliteral : literal ≠ [] → ∀ w ∈ ws.head?, w.isLiteral = false) :
    splitFrom literal (ws.flatMap Written.text)
      = .ok (flush literal (ws.map Written.fragment)) := by
  induction ws generalizing literal with
  | nil => rw [List.flatMap_nil, splitFrom, List.map_nil]
  | cons w ws ih =>
    have hsound := h.sound w List.mem_cons_self
    rw [List.flatMap_cons, List.map_cons]
    cases w with
    | literal t =>
      obtain rfl : literal = [] := by
        by_contra hne
        exact absurd (hliteral hne _ rfl) (by simp [Written.isLiteral])
      have hnext : ∀ w ∈ ws.head?, w.isLiteral = false := by
        intro w hw
        have happart := (List.isChain_cons.mp h.apart).1 w hw
        simpa [Written.isLiteral] using happart
      rw [Written.text, splitFrom_append hsound.2, List.append_nil, ih h.of_cons fun _ => hnext]
      have hne : t.reverse.isEmpty = false := by simpa using hsound.1
      simp [flush, hne, Written.fragment]
    | region before code after =>
      obtain ⟨hregion, hblank, hcode⟩ := hsound.regionAt (ws.flatMap Written.text)
      rw [Written.text, splitFrom_region hregion, hblank, if_neg Bool.false_ne_true, hcode,
        splitChars, ih h.of_cons fun hne => absurd rfl hne]
      rfl

/-- Splitting accepts exactly the texts that can be read to their end, and loses nothing. A text has
    one decomposition into the longest part that can be read and a rest. If nothing is left, the
    fragments are in normal form and are written as the text was; otherwise the rest starts with one
    of three faults, and that fault is reported with the whole text. The other way around, whatever
    fragments in normal form are written as splits into these fragments. -/
theorem splitFragments_exact (site : BraceSite) :
    (∀ text : String, ∃! d : List Char × List Char, Decomposes text.toList d.1 d.2)
    ∧ (∀ (text : String) (p rest : List Char), Decomposes text.toList p rest →
      (rest = [] → ∃ ws, Normal ws ∧ ws.flatMap Written.text = text.toList
        ∧ splitFragments text site = .ok (ws.map Written.fragment))
      ∧ (rest ≠ [] → ∃ fault, Stuck rest fault)
      ∧ ∀ fault, Stuck rest fault → splitFragments text site = .error (fault.error site text))
    ∧ ∀ ws, Normal ws → splitFragments (String.ofList (ws.flatMap Written.text)) site
        = .ok (ws.map Written.fragment) := by
  refine ⟨fun text => ?_, fun text p rest hdecomposes => ?_, fun ws hnormal => ?_⟩
  · obtain ⟨p, rest, h⟩ := exists_readable text.toList
    have hdecomposes := decomposes_iff.mpr h
    exact ⟨(p, rest), hdecomposes, fun d hd => Prod.ext_iff.mpr (hd.unique hdecomposes)⟩
  · obtain ⟨htext, hread, hend⟩ := decomposes_iff.mp hdecomposes
    refine ⟨?_, hend.resolve_left, fun fault hstuck => ?_⟩
    · rintro rfl
      obtain ⟨ws, hnormal, hwritten, hsplit⟩ := hread.splitFrom_ok (List.forall_mem_nil _)
      rw [List.append_nil] at htext
      refine ⟨ws, hnormal, by rw [htext]; exact hwritten, ?_⟩
      rw [splitFragments_eq, htext, splitChars, hsplit]
      rfl
    · rw [splitFragments_eq, splitChars, htext, hread.splitFrom_error (splitFrom_stuck hstuck)]
      rfl
  · rw [splitFragments_eq, String.toList_ofList, splitChars, hnormal.splitFrom_eq (by simp)]
    rfl

example : splitFragments "a \x7b b \x7d\x7b'\x7d'\x7d" .text
    = .ok [.literal "a ", .expression "b", .expression "'\x7d'"] := by decide +kernel

end Reactive.Source
