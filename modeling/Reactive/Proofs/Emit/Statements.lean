/-
  Steps as statements.

  Everything that the compiler writes for a step of the lifecycle is read as it was meant: handles
  are variables, calls and assignments are statements, the conditions of a refresh are expressions,
  and so are the notifications behind reactive declarations. What a step needs of the component is
  that its own code is read as an expression or as statements where the step puts it.
-/
import Reactive.Proofs.Emit.Handles
import Reactive.Proofs.Emit.Layout

namespace Reactive

open Reactive.Text Reactive.Script Reactive.Script.Parser

/-- The expressions of a node: those of its attributes, its own, and those of the nodes below. -/
theorem Node.expressions_eq (node : Node) :
    node.expressions = node.attributes.flatMap Attribute.expressions
      ++ (node.expression?.toList ++ node.children.flatMap Node.expressions) := by
  cases node with
  | element tag attributes children =>
    rw [expressions, fold, foldAll_eq_map]
    rfl
  | text value => rfl
  | expression e => rfl

namespace Emit

/-! ## Names and texts -/

theorem oneLine_name {w : String} (h : IsName w) : OneLine w.toList := by
  intro c hc
  have hpart := h.2.1 c hc
  refine ⟨?_, ?_⟩
  · rintro rfl
    exact absurd hpart (by decide)
  · rintro rfl
    exact absurd hpart (by decide)

theorem oneLine_escapeChar (c : Char) : OneLine (Json.escapeChar c) := by
  have hdigit {n : Nat} (h : n < 16) : Json.hexDigit n ≠ '\n' ∧ Json.hexDigit n ≠ '\r' := by
    have hverbatim := isVerbatim_hexDigit h
    simp only [isVerbatim, Bool.and_eq_true, bne_iff_ne] at hverbatim
    exact ⟨hverbatim.1.2, hverbatim.2⟩
  rcases Json.escapeChar_cases c with ⟨e, he⟩ | ⟨hlow, hc⟩ | ⟨-, -, hhigh, hc⟩
  · have hshort : ∀ p ∈ Json.shortEscapes, OneLine ['\\', p.2] := by decide
    rw [Json.escapeChar_short he]
    exact hshort _ he
  · rw [hc]
    simp [hdigit (n := c.toNat / 16) (by omega), hdigit (n := c.toNat % 16) (by omega)]
  · rw [hc]
    simpa using Json.ne_lineEnd_of_le hhigh

theorem oneLine_quote (s : String) : OneLine (Json.quote s).toList := by
  have hescape : OneLine (Json.escape s.toList) := by
    intro c hc
    obtain ⟨x, -, hx⟩ := List.mem_flatMap.mp hc
    exact oneLine_escapeChar x c hx
  simp [Json.quote, Json.quoteChars, hescape]

/-- A character of a handle can stand in a name; a letter and an underscore can also start one. -/
theorem isNamePart_of_isHandleChar {c : Char} (h : isHandleChar c = true) :
    isNamePart c = true ∧ (c.isAlpha ∨ c = '_' → isNameStart c = true) := by
  -- Handles are ASCII, which leaves a table to look through.
  have hascii : ∀ n < 128, isHandleChar (Char.ofNat n) = true → isNamePart (Char.ofNat n) = true
      ∧ ((Char.ofNat n).isAlpha ∨ Char.ofNat n = '_' → isNameStart (Char.ofNat n) = true) := by
    decide
  have hlt : c.toNat < 128 := by
    unfold isHandleChar Char.isAlphanum Char.isAlpha Char.isUpper Char.isLower Char.isDigit at h
    simp only [Bool.or_eq_true, Bool.and_eq_true, decide_eq_true_eq, beq_iff_eq,
      UInt32.le_iff_toNat_le, ge_iff_le] at h
    change (((65 ≤ c.toNat ∧ c.toNat ≤ 90) ∨ (97 ≤ c.toNat ∧ c.toNat ≤ 122))
      ∨ (48 ≤ c.toNat ∧ c.toNat ≤ 57)) ∨ c = '_' at h
    rcases h with ((h | h) | h) | rfl
    · omega
    · omega
    · omega
    · decide
  have hc := hascii c.toNat hlt
  rw [Char.ofNat_toNat] at hc
  exact hc h

theorem IsAsciiName.isName {w : String} (h : IsAsciiName w.toList) : IsName w := by
  obtain ⟨first, rest, hw, hfirst, hrest⟩ := h
  have hchar : isHandleChar first = true :=
    isHandleChar_iff.mpr (hfirst.imp_right .inr)
  refine ⟨?_, ?_, ?_⟩
  · simpa [hw] using (isNamePart_of_isHandleChar hchar).2 hfirst
  · rw [hw, List.forall_mem_cons]
    exact ⟨(isNamePart_of_isHandleChar hchar).1, fun c hc =>
      (isNamePart_of_isHandleChar (isHandleChar_iff.mpr (hrest c hc))).1⟩
  · simp [← String.toList_eq_nil_iff, hw]

/-- The handle of every node is a variable. -/
theorem isVariable_stem (node : Node) (n : Nat) : IsVariable (handle (stem node) n) := by
  -- A handle has an underscore, and no word with a meaning of its own has one.
  have hspecial : ∀ w ∈ specialWords, '_' ∉ w.toList := by decide
  exact ⟨(isAsciiName_handle node n).isName, fun hmem => handle_ne (hspecial _ hmem) _ _ rfl⟩

/-! ## Calls -/

/-- The items of a list up to its last one. -/
theorem itemList_concat (items : List (List Char)) (last : List Char) :
    itemList (items ++ [last]) = items.flatMap (· ++ [',', ' ']) ++ last := by
  have hled (x : List Char) (xs : List (List Char)) :
      x ++ led [',', ' '] (xs ++ [last]) = (x :: xs).flatMap (· ++ [',', ' ']) ++ last := by
    induction xs generalizing x with
    | nil => simp [led]
    | cons y ys ih =>
      rw [List.cons_append, led, List.flatMap_cons, List.append_assoc, ← led, ih y,
        List.flatMap_cons (x := x)]
      simp
  cases items with
  | nil => simp [itemList, furtherItems, led]
  | cons x xs => exact hled x xs

theorem toList_commas (items : List String) :
    (", ".intercalate items).toList = itemList (items.map String.toList) := by
  cases items with
  | nil => simp [itemList]
  | cons x xs => exact toList_intercalate_cons _ _ _

theorem toList_callText (o m : String) (args : List String) :
    (callText o m args).toList = callOf o m (args.map String.toList) ++ [';'] := by
  have hargs := toList_commas args
  simp only [callText, callOf, String.toList_append, hargs]
  simp

/-- A call whose last argument is code, on a line that may start with something else. -/
theorem laid_call (depth : Nat) {o m : String} (ho : IsName o) (hm : IsName m)
    (before : List Char) (hbefore : OneLine before) (args : List String)
    (hargs : ∀ a ∈ args, OneLine a.toList) (last : String) :
    laid depth (before ++ (callText o m (args ++ [last])).toList)
      = '\n' :: (margin depth ++ (before
        ++ (callOf o m (args.map String.toList ++ [reflowed depth last.toList]) ++ [';']))) := by
  have hflat : OneLine ((args.map String.toList).flatMap (· ++ [',', ' '])) := by
    intro c hc
    obtain ⟨a, ha, hca⟩ := List.mem_flatMap.mp hc
    obtain ⟨x, hx, rfl⟩ := List.mem_map.mp ha
    have hline : OneLine (x.toList ++ [',', ' ']) := by simp [hargs x hx]
    exact hline c hca
  have hpre : OneLine (before ++ (o.toList ++ '.' :: (m.toList
      ++ '(' :: (args.map String.toList).flatMap (· ++ [',', ' '])))) := by
    simp [hbefore, oneLine_name ho, oneLine_name hm, hflat]
  have htext : before ++ (callText o m (args ++ [last])).toList
      = (before ++ (o.toList ++ '.' :: (m.toList
          ++ '(' :: (args.map String.toList).flatMap (· ++ [',', ' ']))))
        ++ (last.toList ++ [')', ';']) := by
    rw [toList_callText, callOf, List.map_append, List.map_singleton, itemList_concat]
    simp
  rw [htext, laid_around depth last.toList hpre (allBlank_eq_false (c := '.') (by simp) rfl)
    (by simp) rfl, callOf, itemList_concat]
  simp

/-- A call on a line of its own. -/
theorem asStatements_call {depth : Nat} {o m last : String} (ho : IsVariable o) (hm : IsName m)
    (args : List String) (hargs : ∀ a ∈ args, OneLine a.toList ∧ AsExpression a.toList)
    (hlast : AsExpression (reflowed depth last.toList)) :
    AsStatements (laid depth (callText o m (args ++ [last])).toList) := by
  have hcall := asOperand_call ho hm (args.map String.toList ++ [reflowed depth last.toList]) (by
    rw [List.forall_mem_append, List.forall_mem_map, List.forall_mem_singleton]
    exact ⟨fun a ha => (hargs a ha).2, hlast⟩)
  have hlaid := laid_call depth ho.name hm [] (by simp) args (fun a ha => (hargs a ha).1) last
  rw [List.nil_append, List.nil_append] at hlaid
  rw [hlaid]
  exact (asStatement_expression ho (by intro rest; rintro _ ⟨⟩; decide)
    hcall.asExpression).asStatements (isGap_margin depth)

/-- A variable that is given what a call returns, on a line of its own. -/
theorem asStatements_assignCall {depth : Nat} {h o m : String} {last : String} (hh : IsVariable h)
    (ho : IsVariable o) (hm : IsName m) (hlast : AsExpression (reflowed depth last.toList)) :
    AsStatements (laid depth (h ++ " = " ++ callText o m [last]).toList) := by
  have hcall := asOperand_call ho hm [reflowed depth last.toList] (by simpa using hlast)
  have hassign := asExpression_assign ((asOperand_variable hh).mono fun t ⟨span, ht⟩ =>
    Or.inl ⟨_, span, ht⟩) hcall.asExpression
  -- The variable and the call stand on one line; only the last argument can have more.
  have hlaid := laid_call depth ho.name hm (h.toList ++ [' ', '=', ' '])
    (by simp [oneLine_name hh.name]) [] (by simp) last
  have htext : (h ++ " = " ++ callText o m [last]).toList
      = h.toList ++ [' ', '=', ' '] ++ (callText o m ([] ++ [last])).toList := by
    simp
  rw [htext, hlaid]
  have hstatement : AsStatement .list (h.toList
      ++ ' ' :: '=' :: ' ' :: callOf o m [reflowed depth last.toList] ++ [';']) :=
    asStatement_expression hh (by intro rest; rintro _ ⟨⟩; decide) hassign
  simpa using hstatement.asStatements (isGap_margin depth)

/-! ## Notifications and conditions -/

theorem oneLine_led {sep : List Char} {pieces : List (List Char)} (hsep : OneLine sep)
    (hpieces : ∀ x ∈ pieces, OneLine x) : OneLine (led sep pieces) := by
  intro c hc
  obtain ⟨x, hx, hcx⟩ := List.mem_flatMap.mp hc
  exact oneLine_append.mpr ⟨hsep, hpieces x hx⟩ c hcx

/-- A notification is a statement on one line. -/
theorem asStatement_refreshCall (names : List String) :
    AsStatement .list (refreshCall names ++ ";").toList ∧ OneLine (refreshCall names ++ ";").toList
      ∧ allBlank (refreshCall names ++ ";").toList = false := by
  have harray : (", ".intercalate (names.map Json.quote)).toList
      = itemList (names.map fun n => (Json.quote n).toList) := by
    rw [toList_commas, List.map_map]
    rfl
  have hline : OneLine (itemList (names.map fun n => (Json.quote n).toList)) := by
    cases names with
    | nil => simp [itemList]
    | cons n ns =>
      rw [List.map_cons, itemList, oneLine_append]
      exact ⟨oneLine_quote n, oneLine_led (by simp) (by simpa using fun n _ => oneLine_quote n)⟩
  have htext : (refreshCall names ++ ";").toList = lifecycleName.toList
      ++ '.' :: (refreshName.toList
        ++ '(' :: (arrayOf (names.map fun n => (Json.quote n).toList) ++ [')'])) ++ [';'] := by
    simp only [refreshCall, arrayOf, String.toList_append, harray]
    simp
  have hname : IsVariable lifecycleName := by decide
  have hcall := asOperand_call (m := refreshName) hname (by decide)
    [arrayOf (names.map fun n => (Json.quote n).toList)] (by
      rw [List.forall_mem_singleton]
      refine (asOperand_array ?_).asExpression
      rw [List.forall_mem_map]
      exact fun n _ => (asOperand_quote n).asExpression)
  have hstatement : AsStatement .list (lifecycleName.toList ++ '.' :: (refreshName.toList
      ++ '(' :: (itemList [arrayOf (names.map fun n => (Json.quote n).toList)] ++ [')']))
      ++ [';']) :=
    asStatement_expression hname (by intro rest; rintro _ ⟨⟩; decide) hcall.asExpression
  refine ⟨?_, ?_, allBlank_eq_false (c := ';') (by simp) rfl⟩
  · rw [htext]
    simpa [itemList, furtherItems, led] using hstatement
  · rw [htext]
    simp [arrayOf, hline, lifecycleName, refreshName]

/-- The condition that one of some names has changed is an expression on one line. -/
theorem asExpression_changedGuard {names : List String} (h : names ≠ []) :
    AsExpression (changedGuard names).toList ∧ OneLine (changedGuard names).toList := by
  have hname : IsVariable changedName := by decide
  have hpiece (n : String) : (changedName ++ ".includes(" ++ Json.quote n ++ ")").toList
      = callOf changedName "includes" [(Json.quote n).toList] := by
    simp [callOf, itemList, furtherItems, led]
  have hcall (n : String) := asOperand_call (m := "includes") hname (by decide)
    [(Json.quote n).toList] (by simpa using (asOperand_quote n).asExpression)
  have hline (n : String) : OneLine (callOf changedName "includes" [(Json.quote n).toList]) := by
    simp [callOf, itemList, furtherItems, led, oneLine_quote, oneLine_name hname.name]
  obtain ⟨n, ns, rfl⟩ := List.exists_cons_of_ne_nil h
  have htext : (changedGuard (n :: ns)).toList
      = callOf changedName "includes" [(Json.quote n).toList] ++ furtherAlternatives
        (ns.map fun n => callOf changedName "includes" [(Json.quote n).toList]) := by
    rw [changedGuard, List.map_cons, toList_intercalate_cons, hpiece, List.map_map]
    simp only [Function.comp_def, hpiece]
    rfl
  rw [htext]
  refine ⟨asExpression_alternatives ?_, oneLine_append.mpr ⟨hline n, oneLine_led (by simp) ?_⟩⟩
  · rw [← List.map_cons (f := fun n => callOf changedName "includes" [(Json.quote n).toList]),
      List.forall_mem_map]
    exact fun n _ => ⟨_, hcall n⟩
  · rw [List.forall_mem_map]
    exact fun n _ => hline n

/-! ## Reactive declarations -/

theorem getLast?_printStatement (code : String) :
    (printStatement code).toList.getLast? ≠ some '\r' := by
  unfold printStatement
  split
  · simpa [trimString] using getLast?_trim code.toList
  · rename_i p _
    simpa using getLast?_trim p.text

/-- A declaration and its notification, however the lines are laid. -/
theorem asStatements_declarationBody {place : List Char → List Char} {d : Declaration}
    (hempty : place [] = []) (hcall : AsStatements (place (refreshCall d.assignees ++ ";").toList))
    (h : AsStatements ((lines (printStatement d.code).toList).flatMap place)) :
    AsStatements ((lines (declarationBody d).toList).flatMap place) := by
  obtain ⟨-, hline, -⟩ := asStatement_refreshCall d.assignees
  unfold declarationBody
  dsimp only
  split
  · exact h
  · have htext : (printStatement d.code ++ "\n" ++ refreshCall d.assignees ++ ";").toList
        = (printStatement d.code).toList ++ '\n' :: (refreshCall d.assignees ++ ";").toList := by
      simp
    -- The code ends in no carriage return, so the notification gets a line of its own.
    rw [htext, flatMap_lines_append hempty (getLast?_printStatement _),
      lines_of_not_mem hline.not_mem.1 (by simp), List.flatMap_singleton]
    exact h.append hcall

/-- A declaration on lines of its own. -/
theorem asStatements_run {depth : Nat} {d : Declaration}
    (h : AsStatements (laid depth (printStatement d.code).toList)) :
    AsStatements (laid depth (Step.run d).write.toList) := by
  obtain ⟨hcall, hline, hblank⟩ := asStatement_refreshCall d.assignees
  refine asStatements_declarationBody rfl ?_ h
  rw [laidLine, if_neg (Bool.eq_false_iff.mp hblank)]
  exact hcall.asStatements (isGap_margin depth)

/-- A declaration in a block. -/
theorem asStatements_run_deeper {depth : Nat} {d : Declaration}
    (h : AsStatements (laidDeeper depth (printStatement d.code).toList)) :
    AsStatements (laidDeeper depth (declarationBody d).toList) := by
  obtain ⟨hcall, hline, hblank⟩ := asStatement_refreshCall d.assignees
  refine asStatements_declarationBody rfl ?_ h
  rw [dropFinalReturn_of_getLast? fun hlast => hline.not_mem.2 (List.mem_of_getLast? hlast),
    laidLine, if_neg (Bool.eq_false_iff.mp hblank)]
  exact hcall.asStatements (isGap_margin (depth + 1))

/-! ## Reactions -/

/-- A text that is computed anew under a condition. -/
theorem asStatements_updateText {depth : Nat} {reads : List String} {h code : String}
    (hreads : reads ≠ []) (hh : IsVariable h) (hcode : AsExpression (reflowed depth code.toList)) :
    AsStatements (laid depth (Reaction.updateText reads h code).write.toList) := by
  obtain ⟨hguard, hline⟩ := asExpression_changedGuard hreads
  have hassign := asExpression_assign ((asOperand_member (m := "textContent") hh (by decide)).mono
    fun t ⟨span, children, ht⟩ => Or.inr ⟨span, children, ht⟩) hcode
  rw [List.append_assoc] at hassign
  have hbody : AsStatement .single (h.toList ++ ('.' :: "textContent".toList
      ++ ' ' :: '=' :: ' ' :: reflowed depth code.toList) ++ [';']) :=
    asStatement_expression hh (by intro rest; rintro _ ⟨⟩; decide) hassign
  have hpre : OneLine ("if (".toList ++ ((changedGuard reads).toList ++ (") ".toList
      ++ (h.toList ++ ".textContent = ".toList)))) := by
    simp [hline, oneLine_name hh.name]
  have htext : (Reaction.updateText reads h code).write.toList
      = ("if (".toList ++ ((changedGuard reads).toList ++ (") ".toList
        ++ (h.toList ++ ".textContent = ".toList)))) ++ (code.toList ++ [';']) := by
    simp [Reaction.write]
  rw [htext, laid_around depth code.toList hpre (allBlank_eq_false (c := '(') (by simp) rfl)
    (by simp) rfl]
  simpa using (asStatement_if hguard hbody).asStatements (isGap_margin depth)

/-- The line that a declaration runs again under. -/
def rerunHead (d : Declaration) : List Char :=
  "if (".toList ++ ((changedGuard d.dependencies).toList ++ ") \x7b".toList)

/-- A declaration that runs again stands in a block under its condition. -/
theorem laid_rerun (depth : Nat) {d : Declaration} (hdeps : d.dependencies ≠ []) :
    laid depth (Reaction.rerun d).write.toList
      = '\n' :: (margin depth ++ rerunHead d) ++ (laidDeeper depth (declarationBody d).toList
        ++ '\n' :: (margin depth ++ ['\x7d'])) := by
  obtain ⟨-, hline⟩ := asExpression_changedGuard hdeps
  have hopen : OneLine (rerunHead d) := by
    simp [rerunHead, hline]
  have htext : (Reaction.rerun d).write.toList
      = rerunHead d ++ '\n' :: ((deeper (declarationBody d)).toList ++ '\n' :: ['\x7d']) := by
    simp [Reaction.write, rerunHead]
  have hlast : (rerunHead d).getLast? ≠ some '\r' := fun hlast =>
    hopen.not_mem.2 (List.mem_of_getLast? hlast)
  have hclose : laid depth ['\x7d'] = '\n' :: (margin depth ++ ['\x7d']) :=
    laid_line (by decide) rfl
  rw [htext, laid_next depth hlast, laid_line hopen.not_mem.1
    (allBlank_eq_false (c := '(') (by simp [rerunHead]) rfl), laid_deeper, hclose]

/-- A declaration that runs again under a condition. -/
theorem asStatements_rerun {depth : Nat} {d : Declaration} (hdeps : d.dependencies ≠ [])
    (hbody : AsStatements (laidDeeper depth (printStatement d.code).toList)) :
    AsStatements (laid depth (Reaction.rerun d).write.toList) := by
  obtain ⟨hguard, -⟩ := asExpression_changedGuard hdeps
  rw [laid_rerun depth hdeps]
  have hblock := asStatement_block (asStatements_run_deeper hbody) (isGap_margin depth)
    .single
  simpa [braced, rerunHead] using (asStatement_if hguard hblock).asStatements (isGap_margin depth)

/-! ## Steps of a template -/

/-- The code of an expression is read as an expression inside the statement of a step. -/
def Fits (e : Expression) : Prop := AsExpression (reflowed 3 (printExpression e.code).toList)

theorem asExpression_text (depth : Nat) (value : String) :
    AsExpression (reflowed depth (Json.quote value).toList) := by
  rw [reflowed_line (oneLine_quote value).not_mem.1]
  exact (asOperand_quote value).asExpression

theorem asExpression_variable (depth : Nat) {w : String} (hw : IsVariable w) :
    AsExpression (reflowed depth w.toList) := by
  rw [reflowed_line (oneLine_name hw.name).not_mem.1]
  exact (asOperand_variable hw).asExpression

/-- The step that creates a node. -/
theorem asStatements_creation {h : String} (hh : IsVariable h) {node : Node}
    (hnode : ∀ e ∈ node.expression?, Fits e) :
    AsStatements (laid 3 (creation h node).write.toList) := by
  have hdocument : IsVariable "document" := by decide
  cases node with
  | element tag attributes children =>
    exact asStatements_assignCall hh hdocument (by decide) (asExpression_text 3 tag)
  | text value => exact asStatements_assignCall hh hdocument (by decide) (asExpression_text 3 value)
  | expression e => exact asStatements_assignCall hh hdocument (by decide) (hnode e rfl)

/-- The steps for an attribute. -/
theorem asStatements_attribute {h : String} (hh : IsVariable h) {a : Attribute}
    (ha : ∀ e ∈ a.expressions, Fits e) {step : Step}
    (hstep : step ∈ (attributeSteps h a).1 ++ (attributeSteps h a).2) :
    AsStatements (laid 3 step.write.toList) := by
  have hcall (m name : String) {last : String} (hm : IsName m)
      (hlast : AsExpression (reflowed 3 last.toList)) :
      AsStatements (laid 3 (callText h m [Json.quote name, last]).toList) :=
    asStatements_call hh hm [Json.quote name]
      (List.forall_mem_singleton.mpr ⟨oneLine_quote name, (asOperand_quote name).asExpression⟩)
      hlast
  obtain ⟨name, value⟩ := a
  cases value with
  | static value =>
    obtain rfl : step = .setAttribute h name (.text value) := by simpa [attributeSteps] using hstep
    exact hcall "setAttribute" name (by decide) (asExpression_text 3 value)
  | dynamic e =>
    obtain rfl : step = .setAttribute h name (.code (printExpression e.code)) := by
      simpa [attributeSteps] using hstep
    exact hcall "setAttribute" name (by decide) (ha e List.mem_cons_self)
  | event event handler =>
    have hhandler := ha handler List.mem_cons_self
    obtain rfl | rfl : step = .addListener h event (printExpression handler.code)
        ∨ step = .removeListener h event (printExpression handler.code) := by
      simpa [attributeSteps] using hstep
    · exact hcall "addEventListener" event (by decide) hhandler
    · exact hcall "removeEventListener" event (by decide) hhandler

/-- The steps of a forest. -/
theorem asStatements_forest (f : Facts) {parent : String} (hparent : IsVariable parent) (n : Nat)
    {nodes : List Node} (hnodes : ∀ e ∈ nodes.flatMap Node.expressions, Fits e) :
    (∀ step ∈ (forest f parent n nodes).build, AsStatements (laid 3 step.write.toList))
    ∧ (∀ r ∈ (forest f parent n nodes).reactions, AsStatements (laid 3 r.write.toList))
    ∧ ∀ step ∈ (forest f parent n nodes).remove, AsStatements (laid 3 step.write.toList) := by
  induction nodes using Node.forestInd generalizing parent n with
  | nil => exact ⟨nofun, nofun, nofun⟩
  | cons node nodes ihc ihn =>
    have hh := isVariable_stem node n
    rw [List.flatMap_cons, Node.expressions_eq, List.forall_mem_append, List.forall_mem_append,
      List.forall_mem_append] at hnodes
    obtain ⟨⟨hattributes, hown, hchildren⟩, hothers⟩ := hnodes
    have hown : ∀ e ∈ node.expression?, Fits e := fun e he => hown e (Option.mem_toList.mpr he)
    obtain ⟨hbuild, hreactions, hremove⟩ := ihc hh (n + 1) hchildren
    obtain ⟨hbuild', hreactions', hremove'⟩ := ihn hparent
      (n + ((forest f (handle (stem node) n) (n + 1) node.children).handles.length + 1)) hothers
    have hattribute (a : Attribute) (ha : a ∈ node.attributes) (step : Step)
        (hstep : step ∈ (attributeSteps (handle (stem node) n) a).1
          ++ (attributeSteps (handle (stem node) n) a).2) :
        AsStatements (laid 3 step.write.toList) :=
      asStatements_attribute hh (fun e he => hattributes e (List.mem_flatMap.mpr ⟨a, ha, he⟩)) hstep
    have hput := asStatements_call (m := "appendChild") hparent (by decide) [] (by simp)
      (asExpression_variable 3 hh)
    have htake := asStatements_call (m := "removeChild") hparent (by decide) [] (by simp)
      (asExpression_variable 3 hh)
    rw [forest_cons]
    dsimp only [around, Emission.append]
    refine ⟨?_, ?_, ?_⟩
    · simp only [List.forall_mem_append, List.forall_mem_cons, List.flatMap_map]
      refine ⟨⟨asStatements_creation hh hown, ⟨fun step hstep => ?_, hbuild⟩, hput, nofun⟩, hbuild'⟩
      obtain ⟨a, ha, hmem⟩ := List.mem_flatMap.mp hstep
      exact hattribute a ha step (List.mem_append_left _ hmem)
    · simp only [List.forall_mem_append]
      refine ⟨⟨fun r hr => ?_, hreactions⟩, hreactions'⟩
      cases node with
      | element tag attributes children => exact absurd hr (by simp [ownReactions])
      | text value => exact absurd hr (by simp [ownReactions])
      | expression e =>
        simp only [ownReactions] at hr
        split at hr
        · exact absurd hr (by simp)
        · rename_i hreads
          obtain rfl := List.mem_singleton.mp hr
          exact asStatements_updateText (by simpa using hreads) hh (hown e rfl)
    · simp only [List.forall_mem_append, List.forall_mem_cons, List.flatMap_map]
      refine ⟨⟨htake, fun step hstep => ?_, hremove⟩, hremove'⟩
      obtain ⟨a, ha, hmem⟩ := List.mem_flatMap.mp hstep
      exact hattribute a ha step (List.mem_append_right _ hmem)

theorem isVariable_handles (f : Facts) (parent : String) (n : Nat) (nodes : List Node) :
    ∀ h ∈ (forest f parent n nodes).handles, IsVariable h := by
  intro h hh
  rw [handles_forest, handled, List.map_map] at hh
  obtain ⟨⟨node, k⟩, -, rfl⟩ := List.mem_map.mp hh
  exact isVariable_stem node k

end Emit

end Reactive
