/-
  Components survive their JSON form.

  Every part of a component is decoded from what it is encoded as: a record finds its fields by
  name, a tagged value its tag, and a node of any depth its children. The attributes of a script
  are a map, listed by name; decoding sorts its fields, which changes nothing there. An encoded
  component holds no number, so its text is read back as the value that was written, unless it has
  more levels than a text may have; each element adds two of them. What the command line prints is
  such a text.
-/
import Reactive.Proofs.CommandLine.Delivery
import Reactive.Proofs.Json.Reading
import Mathlib.Data.String.Basic

namespace Reactive

/-! ## Maps -/

/-- Fields with different names, in the order of their names. -/
def Listed (fields : List (String × String)) : Prop := fields.Pairwise fun a b => a.1 < b.1

instance (fields : List (String × String)) : Decidable (Listed fields) :=
  inferInstanceAs (Decidable (List.Pairwise _ _))

/-- A field takes the place of those of its name. -/
def putField (kept : List (String × String)) (f : String × String) : List (String × String) :=
  kept.filter (·.1 != f.1) ++ [f]

theorem sortedFields_eq (fields : List (String × String)) :
    sortedFields fields = (fields.foldl putField []).mergeSort fun a b => a.1 ≤ b.1 := rfl

theorem nodup_putField {kept : List (String × String)} (h : (kept.map (·.1)).Nodup)
    (f : String × String) : ((putField kept f).map (·.1)).Nodup := by
  have hkept : ((kept.filter (·.1 != f.1)).map (·.1)).Nodup := h.sublist (List.filter_sublist.map _)
  rw [putField, List.map_append, List.nodup_append]
  refine ⟨hkept, by simp, ?_⟩
  intro k hk k' hk'
  obtain ⟨g, hg, rfl⟩ := List.mem_map.mp hk
  obtain rfl := List.mem_singleton.mp hk'
  simpa using (List.mem_filter.mp hg).2

theorem nodup_foldl_putField (fields : List (String × String)) {kept : List (String × String)}
    (h : (kept.map (·.1)).Nodup) : ((fields.foldl putField kept).map (·.1)).Nodup := by
  induction fields generalizing kept with
  | nil => exact h
  | cons f fields ih => exact ih (nodup_putField h f)

/-- Fields of different names are kept as they are. -/
theorem foldl_putField_of_nodup {fields kept : List (String × String)}
    (h : ((kept ++ fields).map (·.1)).Nodup) : fields.foldl putField kept = kept ++ fields := by
  induction fields generalizing kept with
  | nil => simp
  | cons f fields ih =>
    have hput : putField kept f = kept ++ [f] := by
      rw [putField, List.filter_eq_self.mpr]
      intro g hg
      rw [List.map_append, List.nodup_append] at h
      simpa using h.2.2 g.1 (List.mem_map_of_mem hg) f.1 (by simp)
    rw [List.foldl_cons, hput, ih (by simpa using h), List.append_assoc]
    rfl

/-- Sorting the fields of a map gives a map. -/
theorem listed_sortedFields (fields : List (String × String)) : Listed (sortedFields fields) := by
  have hsorted : (sortedFields fields).Pairwise fun a b => a.1 ≤ b.1 := by
    let le (a b : String × String) : Bool := decide (a.1 ≤ b.1)
    have htrans : ∀ a b c, le a b = true → le b c = true → le a c = true :=
      fun a b c => by simpa [le] using le_trans
    have htotal : ∀ a b, (le a b || le b a) = true := fun a b => by
      simpa [le] using le_total a.1 b.1
    rw [sortedFields_eq]
    simpa [le] using List.pairwise_mergeSort htrans htotal (fields.foldl putField [])
  have hnodup : ((sortedFields fields).map (·.1)).Nodup :=
    ((List.mergeSort_perm _ _).map _).nodup_iff.mpr (nodup_foldl_putField fields List.nodup_nil)
  exact (hsorted.and (List.pairwise_map.mp hnodup)).imp fun h => lt_of_le_of_ne h.1 h.2

/-- The fields of a map are sorted. -/
theorem Listed.sortedFields_eq {fields : List (String × String)} (h : Listed fields) :
    sortedFields fields = fields := by
  have hnodup : (fields.map (·.1)).Nodup := List.pairwise_map.mpr (h.imp fun hlt => ne_of_lt hlt)
  have hput : fields.foldl putField [] = [] ++ fields := foldl_putField_of_nodup hnodup
  rw [Reactive.sortedFields_eq, hput]
  exact List.mergeSort_of_pairwise (h.imp fun hlt => by simpa using le_of_lt hlt)

/-! ## Values -/

theorem mapM_map_of_forall {α β : Type} {f : α → β} {g : β → Option α} {xs : List α}
    (h : ∀ x ∈ xs, g (f x) = some x) : (xs.map f).mapM g = some xs := by
  induction xs with
  | nil => rfl
  | cons x xs ih =>
    simp [h x List.mem_cons_self, ih fun y hy => h y (List.mem_cons_of_mem _ hy)]

@[simp] theorem Expression.ofJson?_toJson (e : Expression) : ofJson? e.toJson = some e := rfl

@[simp] theorem AttributeValue.ofJson?_toJson (v : AttributeValue) : ofJson? v.toJson = some v := by
  cases v <;> rfl

@[simp] theorem Attribute.ofJson?_toJson (a : Attribute) : ofJson? a.toJson = some a := by
  show (do return Attribute.mk a.name (← AttributeValue.ofJson? a.value.toJson)) = some a
  rw [AttributeValue.ofJson?_toJson]
  rfl

/-! ### Nodes -/

/-- Induction over a node: the children of an element come before it. -/
@[elab_as_elim]
theorem Node.childInd {motive : Node → Prop}
    (element : ∀ tag attributes children, (∀ c ∈ children, motive c) →
      motive (.element tag attributes children))
    (text : ∀ value, motive (.text value)) (expression : ∀ e, motive (.expression e))
    (n : Node) : motive n :=
  @Node.rec motive (fun ns => ∀ c ∈ ns, motive c) element text expression
    (fun _ h => absurd h List.not_mem_nil)
    (fun _ _ hn hns => List.forall_mem_cons.mpr ⟨hn, hns⟩) n

theorem Node.toJson_element (tag : String) (attributes : List Attribute) (children : List Node) :
    (Node.element tag attributes children).toJson
      = .object [("type", .string "element"), ("tag", .string tag),
        ("attributes", .array (attributes.map Attribute.toJson)),
        ("children", .array (children.map Node.toJson))] := by
  rw [toJson, fold, foldAll_eq_map]
  rfl

theorem Node.depth_toJson_pos (n : Node) : 0 < n.toJson.depth := by
  cases n with
  | element tag attributes children =>
    rw [toJson_element]
    exact Nat.succ_pos _
  | text value => exact Nat.succ_pos _
  | expression e => exact Nat.succ_pos _

theorem Json.depth_le_depthOfItems {v : Json} {items : List Json} (h : v ∈ items) :
    v.depth ≤ depthOfItems items := by
  induction h with
  | head vs => exact Nat.le_max_left _ _
  | tail w _ ih => exact Nat.le_trans ih (Nat.le_max_right _ _)

/-- A node is decoded within the levels of its value. -/
theorem Node.ofJsonWithin?_toJson (n : Node) :
    ∀ depth, n.toJson.depth ≤ depth → ofJsonWithin? depth n.toJson = some n := by
  have hpos := n.depth_toJson_pos
  induction n using Node.childInd with
  | element tag attributes children ih =>
    intro depth hdepth
    obtain ⟨depth, rfl⟩ := Nat.exists_eq_succ_of_ne_zero (n := depth) (by omega)
    rw [toJson_element] at hdepth ⊢
    have hattributes : (attributes.map Attribute.toJson).mapM Attribute.ofJson?
        = some attributes := mapM_map_of_forall fun a _ => a.ofJson?_toJson
    have hchildren : (children.map Node.toJson).mapM (ofJsonWithin? depth) = some children := by
      refine mapM_map_of_forall fun c hc => ih c hc c.depth_toJson_pos depth ?_
      have hc := Json.depth_le_depthOfItems (List.mem_map_of_mem (f := Node.toJson) hc)
      simp [Json.depth, Json.depthOfFields] at hdepth
      omega
    show (do
      let attributes ← (attributes.map Attribute.toJson).mapM Attribute.ofJson?
      let children ← (children.map Node.toJson).mapM (ofJsonWithin? depth)
      return Node.element tag attributes children) = _
    rw [hattributes, hchildren]
    rfl
  | text value =>
    intro depth hdepth
    obtain ⟨depth, rfl⟩ := Nat.exists_eq_succ_of_ne_zero (n := depth) (by omega)
    rfl
  | expression e =>
    intro depth hdepth
    obtain ⟨depth, rfl⟩ := Nat.exists_eq_succ_of_ne_zero (n := depth) (by omega)
    rfl

@[simp] theorem Node.ofJson?_toJson (n : Node) : ofJson? n.toJson = some n :=
  n.ofJsonWithin?_toJson _ (Nat.le_refl _)

/-! ### Components -/

@[simp] theorem Template.ofJson?_toJson (t : Template) : ofJson? t.toJson = some t := by
  have hnodes : (t.nodes.map Node.toJson).mapM Node.ofJson? = some t.nodes :=
    mapM_map_of_forall fun n _ => n.ofJson?_toJson
  have hexpressions : (t.expressions.map Expression.toJson).mapM Expression.ofJson?
      = some t.expressions := mapM_map_of_forall fun e _ => e.ofJson?_toJson
  show (do
    return Template.mk (← (t.nodes.map Node.toJson).mapM Node.ofJson?)
      (← (t.expressions.map Expression.toJson).mapM Expression.ofJson?)) = _
  rw [hnodes, hexpressions]
  rfl

theorem ScriptBlock.ofJson?_toJson {s : ScriptBlock} (h : Listed s.attributes) :
    ofJson? s.toJson = some s := by
  have hfields : (s.attributes.map fun a => (a.1, Json.string a.2)).mapM
      (fun f : String × Json => do return (f.1, ← f.2.asString?)) = some s.attributes :=
    mapM_map_of_forall fun a _ => rfl
  show (do
    let fields ← (s.attributes.map fun a : String × String => (a.1, Json.string a.2)).mapM
      (fun f : String × Json => do return (f.1, ← f.2.asString?))
    return ScriptBlock.mk s.raw (sortedFields fields)) = _
  rw [hfields]
  show some (ScriptBlock.mk s.raw (sortedFields s.attributes)) = _
  rw [h.sortedFields_eq]

theorem Component.ofJson?_toJson {c : Component} (h : ∀ s ∈ c.script, Listed s.attributes) :
    ofJson? c.toJson = some c := by
  have hscript : scriptField? (some (.optional (c.script.map ScriptBlock.toJson)))
      = some c.script := by
    cases hs : c.script with
    | none => rfl
    | some s =>
      show (ScriptBlock.ofJson? s.toJson).map some = _
      rw [ScriptBlock.ofJson?_toJson (h s hs)]
      rfl
  show (do
    let template ← Template.ofJson? c.template.toJson
    let script ← scriptField? (some (.optional (c.script.map ScriptBlock.toJson)))
    return Component.mk c.filePath template script) = _
  rw [Template.ofJson?_toJson, hscript]
  rfl

/-! ## Texts -/

section

open Json (NumberFree)

@[simp] theorem Expression.numberFree (e : Expression) : NumberFree e.toJson := by
  simp [Expression.toJson]

@[simp] theorem Attribute.numberFree (a : Attribute) : NumberFree a.toJson := by
  obtain ⟨name, value⟩ := a
  cases value <;> simp [Attribute.toJson, AttributeValue.toJson]

@[simp] theorem Node.numberFree (n : Node) : NumberFree n.toJson := by
  induction n using Node.childInd with
  | element tag attributes children ih => simpa [toJson_element] using ih
  | text value => simp [toJson, fold]
  | expression e => simp [toJson, fold]

@[simp] theorem ScriptBlock.numberFree (s : ScriptBlock) : NumberFree s.toJson :=
  .object (List.forall_mem_cons.mpr ⟨.string _, List.forall_mem_singleton.mpr
    (.object (List.forall_mem_map.mpr fun _ _ => .string _))⟩)

/-- No number stands in an encoded component. -/
theorem Component.numberFree (c : Component) : NumberFree c.toJson := by
  have hscript : NumberFree (.optional (c.script.map ScriptBlock.toJson)) := by
    cases c.script <;> simp [Json.optional]
  simp [Component.toJson, Template.toJson, hscript]

end

/-- The attributes of a script that was read are a map. -/
theorem listed_of_scriptOf {source : List Char} {s : ScriptBlock}
    (h : scriptOf source = .ok (some s)) : Listed s.attributes := by
  unfold scriptOf at h
  split at h
  · cases h
  · simp only at h
    split at h
    · cases h
    · cases h
      exact listed_sortedFields _
  · cases h

/-- The component of a source has the script of the source. -/
theorem listed_of_build {source filePath : String} {c : Component}
    (h : build source filePath = .ok c) : ∀ s ∈ c.script, Listed s.attributes := by
  intro s hs
  simp only [build, bind, Except.bind] at h
  split at h
  · cases h
  · rename_i script hscript
    split at h
    · cases h
    · cases h
      obtain rfl : script = some s := hs
      exact listed_of_scriptOf hscript

/-! ### Levels -/

/-- The number of elements on the longest way down from a node, with the node. -/
def Node.height (n : Node) : Nat :=
  n.fold (fun _ _ children => children.foldr max 0 + 1) (fun _ => 0) (fun _ => 0)

theorem Node.height_element (tag : String) (attributes : List Attribute) (children : List Node) :
    (Node.element tag attributes children).height
      = (children.map Node.height).foldr max 0 + 1 := by
  rw [height, fold, foldAll_eq_map]
  rfl

theorem le_foldr_max {k : Nat} {ks : List Nat} (h : k ∈ ks) : k ≤ ks.foldr max 0 := by
  induction h with
  | head ks => exact Nat.le_max_left _ _
  | tail m _ ih => exact Nat.le_trans ih (Nat.le_max_right _ _)

theorem Json.depthOfItems_le {items : List Json} {bound : Nat} (h : ∀ v ∈ items, v.depth ≤ bound) :
    depthOfItems items ≤ bound := by
  induction items with
  | nil => exact Nat.zero_le _
  | cons v vs ih =>
    exact Nat.max_le.mpr ⟨h v List.mem_cons_self, ih fun w hw => h w (List.mem_cons_of_mem _ hw)⟩

@[simp] theorem Expression.depth_toJson (e : Expression) : e.toJson.depth = 1 := rfl

theorem Attribute.depth_toJson_le (a : Attribute) : a.toJson.depth ≤ 4 := by
  obtain ⟨name, value⟩ := a
  cases value <;> exact Nat.le_of_ble_eq_true rfl

theorem Node.depth_toJson_le (n : Node) : n.toJson.depth ≤ 2 * n.height + 4 := by
  induction n using Node.childInd with
  | element tag attributes children ih =>
    have hattributes : Json.depthOfItems (attributes.map Attribute.toJson) ≤ 4 :=
      Json.depthOfItems_le (List.forall_mem_map.mpr fun a _ => a.depth_toJson_le)
    have hchildren : Json.depthOfItems (children.map Node.toJson)
        ≤ 2 * (children.map Node.height).foldr max 0 + 4 := by
      refine Json.depthOfItems_le (List.forall_mem_map.mpr fun c hc => ?_)
      have hheight := le_foldr_max (List.mem_map_of_mem (f := Node.height) hc)
      have hc := ih c hc
      omega
    rw [toJson_element, height_element]
    simp only [Json.depth, Json.depthOfFields]
    omega
  | text value => exact Nat.le_add_left 1 3
  | expression e => exact Nat.le_add_left 2 2

theorem ScriptBlock.depth_toJson_le (s : ScriptBlock) : s.toJson.depth ≤ 2 := by
  have hattributes : Json.depthOfFields (s.attributes.map fun a => (a.1, Json.string a.2)) = 0 := by
    induction s.attributes with
    | nil => rfl
    | cons a as ih => simp [Json.depthOfFields, Json.depth, ih]
  simp [toJson, Json.depth, Json.depthOfFields, hattributes]

/-- A text may hold sixty elements in each other. -/
theorem Component.depth_toJson_le {c : Component} (h : ∀ n ∈ c.template.nodes, n.height ≤ 60) :
    c.toJson.depth ≤ Json.nestingLimit := by
  have hnodes : Json.depthOfItems (c.template.nodes.map Node.toJson) ≤ 124 := by
    refine Json.depthOfItems_le (List.forall_mem_map.mpr fun n hn => ?_)
    have hdepth := n.depth_toJson_le
    have hheight := h n hn
    omega
  have hexpressions : Json.depthOfItems (c.template.expressions.map Expression.toJson) ≤ 1 :=
    Json.depthOfItems_le (List.forall_mem_map.mpr fun e _ => Nat.le_of_eq e.depth_toJson)
  have hscript : (Json.optional (c.script.map ScriptBlock.toJson)).depth ≤ 2 := by
    cases hs : c.script with
    | none => exact Nat.zero_le 2
    | some s => exact s.depth_toJson_le
  simp only [toJson, Template.toJson, Json.depth, Json.depthOfFields, Json.nestingLimit]
  omega

/-! ## Both forms -/

/-- The component that the text of a component stands for, with or without a line end. -/
theorem Component.ofJson?_pretty {c : Component} (h : ∀ s ∈ c.script, Listed s.attributes)
    (closing : String) (hclosing : Json.skipBlanks closing.toList = []) :
    (Json.parse? (c.toJson.pretty ++ closing)).bind ofJson?
      = if c.toJson.depth ≤ Json.nestingLimit then some c else none := by
  rw [c.numberFree.parse?_pretty closing hclosing]
  split
  · exact ofJson?_toJson h
  · rfl

/-- Every component is decoded from its encoding as a value. Its text on lines is decoded to the
component exactly if it has no more levels than a text may have, and refused otherwise; sixty
elements may stand in each other. The same holds of what a run on any disk prints that was asked
for the component. -/
theorem Component.survives_json :
    (∀ c : Component, (∀ s ∈ c.script, Listed s.attributes) →
      ofJson? c.toJson = some c
      ∧ (Json.parse? c.toJson.pretty).bind ofJson?
        = (if c.toJson.depth ≤ Json.nestingLimit then some c else none)
      ∧ ((∀ n ∈ c.template.nodes, n.height ≤ 60) →
        (Json.parse? c.toJson.pretty).bind ofJson? = some c))
    ∧ ∀ (i : CommandLine.Invocation) (d : CommandLine.Disk) (source : String) (c : Component),
      i.request = .showComponent → d.readFile i.input = .ok source →
      build source i.input = .ok c →
      let r := CommandLine.outcome (i.execute CommandLine.diskSystem) d
      r.status = 0 ∧ (Json.parse? r.stdout).bind ofJson?
        = if c.toJson.depth ≤ Json.nestingLimit then some c else none := by
  constructor
  · intro c hc
    have htext := ofJson?_pretty hc "" rfl
    rw [String.append_empty] at htext
    refine ⟨ofJson?_toJson hc, htext, fun hheight => ?_⟩
    rw [htext, if_pos (depth_toJson_le hheight)]
  · intro i d source c hrequest hsource hbuild r
    have hproduct : i.product c = .print (c.toJson.pretty ++ "\n") :=
      CommandLine.Invocation.product_eq_print_iff.mpr (.inl ⟨hrequest, rfl⟩)
    have hrun : r = ⟨0, c.toJson.pretty ++ "\n", "", d⟩ :=
      CommandLine.Invocation.outcome_of_print hsource hbuild hproduct
    rw [hrun]
    exact ⟨rfl, ofJson?_pretty (listed_of_build hbuild) "\n" rfl⟩

/-- A component with an attribute of each kind, characters that are escaped or not in Unicode's
first plane and a script with attributes; and the component of a file, as it is printed. -/
theorem Component.survives_json_both :
    let c : Component := ⟨"a/b.svelte", ⟨[.element "p" [⟨"class", .static "\x00\"\\\n\x1f"⟩,
      ⟨"title", .dynamic ⟨"expr_0", "t"⟩⟩, ⟨"on:click", .event "click" ⟨"expr_1", "() => n++"⟩⟩]
      [.element "b" [] [.text "é\u2028😀", .expression ⟨"expr_2", "n"⟩]], .text ""],
      [⟨"expr_0", "t"⟩]⟩, some ⟨"let n = 0;", [("lang", "js"), ("module", "")]⟩⟩
    let i : CommandLine.Invocation := ⟨"x", .showComponent, "", false, none, .reactive, false⟩
    let source := "<script lang=js>let n = 0;</script><p>\x7bn\x7d</p>"
    let d := CommandLine.Disk.ofFiles [("x", source)]
    let r := CommandLine.outcome (i.execute CommandLine.diskSystem) d
    (ofJson? c.toJson = some c ∧ (Json.parse? c.toJson.pretty).bind ofJson? = some c)
    ∧ ∃ built, build source "x" = .ok built ∧ built.script.map (·.raw) = some "let n = 0;"
      ∧ r.status = 0 ∧ (Json.parse? r.stdout).bind ofJson?
        = if built.toJson.depth ≤ Json.nestingLimit then some built else none := by
  intro c i source d r
  obtain ⟨hvalue, -, htext⟩ := survives_json.1 c fun s hs => by cases hs; decide
  refine ⟨⟨hvalue, htext (by decide)⟩, ?_⟩
  have hsource : d.readFile "x" = .ok source := by decide +kernel
  have hraw : (build source "x").toOption.map (·.script.map (·.raw))
      = some (some "let n = 0;") := by decide +kernel
  cases hbuild : build source "x" with
  | error e =>
    rw [hbuild] at hraw
    cases hraw
  | ok built =>
    rw [hbuild] at hraw
    exact ⟨built, rfl, Option.some.inj hraw, survives_json.2 i d source built rfl hsource hbuild⟩

/-- The text of elements that nest too deep is refused. -/
theorem Component.deep_text_refused :
    let nested := Nat.repeat (fun n => Node.element "b" [] [n]) 62 (.text "")
    let c : Component := ⟨"", ⟨[nested], []⟩, none⟩
    ofJson? c.toJson = some c ∧ (Json.parse? c.toJson.pretty).bind ofJson? = none := by
  intro nested c
  have hscript : ∀ s ∈ c.script, Listed s.attributes := fun s hs => nomatch hs
  have hdeep : ¬c.toJson.depth ≤ Json.nestingLimit := by decide +kernel
  have htext := ofJson?_pretty hscript "" rfl
  rw [String.append_empty, if_neg hdeep] at htext
  exact ⟨ofJson?_toJson hscript, htext⟩

end Reactive
