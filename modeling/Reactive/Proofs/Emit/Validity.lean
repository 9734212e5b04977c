/-
  Compiled components are modules.

  The variables, the script, the object of the lifecycle and the function around them are put
  together from statements. If the script, the expressions and the reactive declarations of a
  component are read as statements and expressions where they are put, the whole text is a module
  without fault and flaw; nothing else is asked of the component.
-/
import Reactive.Compile
import Reactive.Proofs.Emit.Statements

namespace Reactive

open Reactive.Text Reactive.Script Reactive.Script.Parser

namespace Emit

/-! ## The function -/

/-- A method is a property of an object, with a comma behind it. -/
theorem asProperty_laidLines {name parameter : String} {body : List String}
    (hname : IsVariable name) (hplain : name ∉ ["get", "set"]) (hparameter : IsVariable parameter)
    (hbody : ∀ t ∈ body, AsStatements (laid 3 t.toList)) :
    ∃ text, AsProperty text ∧ laidLines (Listing.method name parameter body) = text ++ [','] := by
  have hbefore : ∀ c ∈ '\n' :: margin 2, isGap c = true :=
    List.forall_mem_cons.mpr ⟨rfl, isGap_margin 2⟩
  have hproperty := asProperty_method hname hplain hparameter (asStatements_flatMap hbody)
    (isGap_margin 2) hbefore
  exact ⟨_, hproperty,
    laidLines_method (oneLine_name hname.name) (oneLine_name hparameter.name) body⟩

/-- The object of the lifecycle. -/
theorem asStatements_lifecycle {construct refresh teardown : List String}
    (hconstruct : ∀ t ∈ construct, AsStatements (laid 3 t.toList))
    (hrefresh : ∀ t ∈ refresh, AsStatements (laid 3 t.toList))
    (hteardown : ∀ t ∈ teardown, AsStatements (laid 3 t.toList)) :
    AsStatements (laidLines (Listing.linesAt 1 ("const " ++ lifecycleName ++ " = \x7b")
      ++ Listing.method "construct" targetName construct
      ++ Listing.method "refresh" changedName refresh
      ++ Listing.method "teardown" targetName teardown ++ Listing.linesAt 1 "\x7d;")) := by
  have htarget : IsVariable targetName := by decide
  have hchanged : IsVariable changedName := by decide
  have hnames : ∀ n ∈ ["construct", "refresh", "teardown"], IsVariable n ∧ n ∉ ["get", "set"] := by
    decide
  rw [List.forall_mem_cons, List.forall_mem_cons, List.forall_mem_singleton] at hnames
  obtain ⟨hfirst, hsecond, hthird⟩ := hnames
  obtain ⟨first, hfirst, hfirst'⟩ := asProperty_laidLines hfirst.1 hfirst.2 htarget hconstruct
  obtain ⟨second, hsecond, hsecond'⟩ := asProperty_laidLines hsecond.1 hsecond.2 hchanged hrefresh
  obtain ⟨third, hthird, hthird'⟩ := asProperty_laidLines hthird.1 hthird.2 htarget hteardown
  -- Each method brings its comma, so the three texts make up the list of properties.
  have hproperties : ∀ x ∈ [first, second, third], AsProperty x := by
    simp [hfirst, hsecond, hthird]
  have hobject := asOperand_object hproperties (isGap_margin 1)
  have hconst := (asStatement_const (w := lifecycleName) (by decide) hobject).asStatements
    (isGap_margin 1)
  have hopen : laid 1 ("const " ++ lifecycleName ++ " = \x7b").toList
      = '\n' :: (margin 1
        ++ ("const ".toList ++ (lifecycleName.toList ++ [' ', '=', ' ', '\x7b']))) := by
    decide
  have hclose : laid 1 "\x7d;".toList = '\n' :: (margin 1 ++ ['\x7d', ';']) := rfl
  rw [laidLines_append, laidLines_append, laidLines_append, laidLines_append, laidLines_linesAt,
    laidLines_linesAt, hopen, hclose, hfirst', hsecond', hthird']
  simpa [objectOf, propertyList] using hconst

/-- A listing is a module if its name and its declarations are names, and its script and the texts
of its methods are statements. -/
theorem soundModule_render {l : Listing} (hname : ∀ n ∈ l.name, IsBinding n ∧ n ≠ "await")
    (hdeclarations : ∀ d ∈ l.declarations, IsBinding d)
    (hscript : AsStatements (laid 1 l.script.toList))
    (hconstruct : ∀ t ∈ l.construct, AsStatements (laid 3 t.toList))
    (hrefresh : ∀ t ∈ l.refresh, AsStatements (laid 3 t.toList))
    (hteardown : ∀ t ∈ l.teardown, AsStatements (laid 3 t.toList)) :
    ∃ p, soundModule l.render.toList = .ok p := by
  have hlet (d : String) (hd : d ∈ l.declarations) :
      AsStatements (laidLines (Listing.linesAt 1 ("let " ++ d ++ ";"))) := by
    have hbinding := hdeclarations d hd
    have htext : ("let " ++ d ++ ";").toList = "let ".toList ++ (d.toList ++ [';']) := by simp
    have hline : OneLine ("let ".toList ++ (d.toList ++ [';'])) := by
      simp [oneLine_name hbinding.name]
    rw [laidLines_linesAt, htext,
      laid_line hline.not_mem.1 (allBlank_eq_false (c := ';') (by simp) rfl)]
    exact (asStatement_let hbinding).asStatements (isGap_margin 1)
  have hreturn :
      AsStatements (laidLines (Listing.linesAt 1 ("return " ++ lifecycleName ++ ";"))) := by
    have hlaid : laid 1 ("return " ++ lifecycleName ++ ";").toList
        = '\n' :: (margin 1 ++ ("return ".toList ++ (lifecycleName.toList ++ [';']))) := by
      decide
    rw [laidLines_linesAt, hlaid]
    exact (asStatement_return (by decide)).asStatements (isGap_margin 1)
  have hbody : AsStatements (laidLines l.body) := by
    have hdeclared : AsStatements (laidLines
        (l.declarations.flatMap fun d => Listing.linesAt 1 ("let " ++ d ++ ";"))) := by
      rw [laidLines, List.flatMap_assoc]
      exact asStatements_flatMap hlet
    have hlifecycle := asStatements_lifecycle hconstruct hrefresh hteardown
    have hscript' : AsStatements (laidLines (Listing.linesAt 1 l.script)) := by
      rw [laidLines_linesAt]
      exact hscript
    -- The order of the lines: variables, script, lifecycle, and what is returned.
    have hall := ((hdeclared.append hscript').append hlifecycle).append hreturn
    simpa only [Listing.body, laidLines_append, List.append_assoc] using hall
  rw [toList_render]
  exact soundModule_exportOf hname hbody

/-! ## Compiled components -/

/-- The code of a component is read as what it is where a compiled component puts it: hoisted names
as variables, the script and the reactive declarations as statements, expressions as expressions. -/
structure Readable (c : Component) (f : Facts) (o : Options) : Prop where
  hoisted : ∀ n ∈ f.hoisted, IsBinding n
  script : AsStatements (laid 1 (notifyScript c.scriptSource f o.policy).toList)
  expressions : ∀ e ∈ c.template.nodes.flatMap Node.expressions, Fits e
  declarations : ∀ d ∈ f.responsive, AsStatements (laid 3 (printStatement d.code).toList)
  reruns : ∀ d ∈ f.responsive, d.dependencies ≠ [] →
    AsStatements (laidDeeper 3 (printStatement d.code).toList)

/-- A compiled component is a module if the code of the component is read where it is put. -/
theorem soundModule_generate {c : Component} {f : Facts} {o : Options}
    (hname : ∀ n ∈ o.componentName, IsBinding n ∧ n ≠ "await") (h : Readable c f o) :
    ∃ p, soundModule (generate c f o).listing.render.toList = .ok p := by
  have htarget : IsVariable targetName := by decide
  obtain ⟨hbuild, hreactions, hremove⟩ := asStatements_forest f htarget 0 h.expressions
  refine soundModule_render hname ?_ h.script ?_ ?_ ?_
  · show ∀ d ∈ (markup f c.template).handles ++ f.hoisted, IsBinding d
    rw [List.forall_mem_append]
    exact ⟨fun d hd => (isVariable_handles f targetName 0 _ d hd).isBinding, h.hoisted⟩
  · show ∀ t ∈ ((markup f c.template).build ++ f.responsive.map Step.run).map Step.write, _
    rw [List.forall_mem_map, List.forall_mem_append, List.forall_mem_map]
    exact ⟨hbuild, fun d hd => asStatements_run (h.declarations d hd)⟩
  · show ∀ t ∈ ((markup f c.template).reactions ++ reruns f).map Reaction.write, _
    rw [List.forall_mem_map, List.forall_mem_append, reruns, List.forall_mem_map]
    refine ⟨hreactions, fun d hd => ?_⟩
    obtain ⟨hd, hdeps⟩ := List.mem_filter.mp hd
    have hdeps : d.dependencies ≠ [] := by simpa using hdeps
    exact asStatements_rerun hdeps (h.reruns d hd hdeps)
  · show ∀ t ∈ (markup f c.template).remove.reverse.map Step.write, _
    rw [List.forall_mem_map]
    exact fun step hstep => hremove step (List.mem_reverse.mp hstep)

end Emit

/-- What a compilation is made of. -/
theorem compile_eq_ok {source : String} {o : Options} {r : Compilation}
    (h : compile source o = .ok r) : r = compileComponent r.component o := by
  unfold compile at h
  cases hbuild : build source o.filePath with
  | error e =>
    rw [hbuild] at h
    cases h
  | ok c =>
    rw [hbuild] at h
    cases h
    rfl

end Reactive
