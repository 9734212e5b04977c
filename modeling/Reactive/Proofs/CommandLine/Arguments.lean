/-
  What arguments spell.

  The arguments of a command line spell a list of parts: switches, options with a value, and paths.
  An option may have its value behind it or attached to it, and behind two dashes there are only
  paths. Main statement: arguments stand for an invocation exactly if they spell parts that ask for
  it, where each switch, each option and the path is there at most once, and what is not there has
  its default.
-/
import Reactive.CommandLine.Arguments
import Mathlib.Data.List.Induction
import Mathlib.Data.List.TakeWhile

namespace Reactive.CommandLine

/-! ## Spelling -/

/-- A part of a command line. -/
inductive Part where
  | switch (key : String)
  | option (key value : String)
  | path (value : String)
deriving DecidableEq

/-- The ways to write a part. What looks like a flag is a value only if it is attached. -/
inductive Part.Spelled : Part → List String → Prop where
  | switch {key : String} (hne : key ≠ "") (hequals : '=' ∉ key.toList)
      (hkey : takesValue key = false) : Spelled (.switch key) ["--" ++ key]
  | long {key value : String} (hkey : takesValue key = true)
      (hvalue : looksLikeFlag value = false) : Spelled (.option key value) ["--" ++ key, value]
  | longAttached {key value : String} (hequals : '=' ∉ key.toList) :
      Spelled (.option key value) ["--" ++ key ++ "=" ++ value]
  | short {value : String} (hvalue : looksLikeFlag value = false) :
      Spelled (.option "output" value) ["-o", value]
  | shortAttached {value : String} (hne : value ≠ "") (hequals : value.toList.head? ≠ some '=') :
      Spelled (.option "output" value) ["-o" ++ value]
  | shortEquals {value : String} : Spelled (.option "output" value) ["-o=" ++ value]
  | path {value : String} (hvalue : looksLikeFlag value = false) : Spelled (.path value) [value]

/-- The parts that arguments are written for. -/
inductive Spelled : List String → List Part → Prop where
  | nil : Spelled [] []
  | cons {p : Part} {front args : List String} {parts : List Part} (hfront : p.Spelled front)
      (hrest : Spelled args parts) : Spelled (front ++ args) (p :: parts)
  | paths (values : List String) : Spelled ("--" :: values) (values.map Part.path)

/-- Takes up a part. -/
def Given.add (g : Given) : Part → Except Refusal Given
  | .switch key => g.switch key
  | .option key value => g.option key value
  | .path value => g.path value

theorem takesValue_iff {key : String} :
    takesValue key = true ↔ key = "output" ∨ key = "name" ∨ key = "policy" := by
  simp [takesValue, or_assoc]

/-- Two characters or more, the first of them a dash, look like a flag. -/
theorem looksLikeFlag_eq_false_iff {arg : String} :
    looksLikeFlag arg = false ↔ ∀ c cs, arg.toList ≠ '-' :: c :: cs := by
  rw [looksLikeFlag]
  split
  · rename_i c cs harg
    simp [harg]
  · rename_i hflag
    simpa using fun c cs => hflag c cs

theorem bne_equals {cs : List Char} (h : '=' ∉ cs) : ∀ c ∈ cs, (c != '=') = true := by
  intro c hc
  rw [bne_iff_ne]
  rintro rfl
  exact h hc

theorem splitValue_plain {key : String} (h : '=' ∉ key.toList) :
    splitValue key.toList = (key, none) := by
  rw [splitValue, List.dropWhile_eq_nil_iff.mpr (bne_equals h), String.ofList_toList]

theorem splitValue_attached {key : String} (h : '=' ∉ key.toList) (value : String) :
    splitValue (key.toList ++ '=' :: value.toList) = (key, some value) := by
  rw [splitValue, List.dropWhile_append_of_pos (bne_equals h),
    List.takeWhile_append_of_pos (bne_equals h)]
  simp

/-- The value of a long option starts behind the first equals sign, if there is any. -/
theorem splitValue_eq {body : List Char} {key : String} {value : Option String}
    (h : splitValue body = (key, value)) :
    '=' ∉ key.toList
      ∧ body = key.toList ++ (value.elim [] fun value => '=' :: value.toList) := by
  by_cases hmem : '=' ∈ body
  · obtain ⟨k, v, rfl, hk⟩ := List.eq_append_cons_of_mem hmem
    have hkey : '=' ∉ (String.ofList k).toList := by simpa using hk
    have hsplit := splitValue_attached hkey (String.ofList v)
    rw [String.toList_ofList, String.toList_ofList, h] at hsplit
    obtain ⟨rfl, rfl⟩ := Prod.mk.inj hsplit
    simpa using hk
  · have hbody : '=' ∉ (String.ofList body).toList := by simpa using hmem
    have hsplit := splitValue_plain hbody
    rw [String.toList_ofList, h] at hsplit
    obtain ⟨rfl, rfl⟩ := Prod.mk.inj hsplit
    simpa using hmem

/-- Reading starts with a part and goes on behind it. -/
theorem readArguments_append {p : Part} {front : List String} (h : p.Spelled front) (g : Given)
    (args : List String) :
    readArguments g (front ++ args) = (do readArguments (← g.add p) args) := by
  cases h with
  | @switch key hne hequals hkey =>
    have hsplit := splitValue_plain hequals
    obtain ⟨c, cs, hbody⟩ := List.exists_cons_of_ne_nil (l := key.toList) (by simpa using hne)
    rw [hbody] at hsplit
    rw [List.singleton_append, readArguments.eq_def]
    simp [hbody, hsplit, hkey, Given.add]
  | @long key value hkey hvalue =>
    obtain ⟨hequals, hne⟩ : '=' ∉ key.toList ∧ key.toList ≠ [] := by
      rcases takesValue_iff.mp hkey with rfl | rfl | rfl <;> decide
    have hsplit := splitValue_plain hequals
    obtain ⟨c, cs, hbody⟩ := List.exists_cons_of_ne_nil hne
    rw [hbody] at hsplit
    rw [List.cons_append, List.singleton_append, readArguments.eq_def]
    simp [hbody, hsplit, hkey, hvalue, Given.add]
  | @longAttached key value hequals =>
    have hsplit := splitValue_attached hequals value
    obtain ⟨c, cs, hbody⟩ := List.exists_cons_of_ne_nil
      (List.append_ne_nil_of_right_ne_nil key.toList (List.cons_ne_nil '=' value.toList))
    rw [hbody] at hsplit
    rw [List.singleton_append, readArguments.eq_def]
    simp [hbody, hsplit, Given.add]
  | @short value hvalue =>
    rw [List.cons_append, List.singleton_append, readArguments.eq_def]
    simp [hvalue, Given.add]
  | @shortAttached value hne hequals =>
    obtain ⟨c, cs, hbody⟩ := List.exists_cons_of_ne_nil (l := value.toList) (by simpa using hne)
    have hvalue : String.ofList (c :: cs) = value := by rw [← hbody, String.ofList_toList]
    have hc : c ≠ '=' := by simpa [hbody] using hequals
    rw [List.singleton_append, readArguments.eq_def]
    simp [hbody, hc, hvalue, Given.add, -String.ofList_cons]
  | @shortEquals value =>
    rw [List.singleton_append, readArguments.eq_def]
    simp [Given.add]
  | @path value hvalue =>
    have hflag := looksLikeFlag_eq_false_iff.mp hvalue
    rw [List.singleton_append, readArguments.eq_def]
    simp [hflag, Given.add]

/-- Reading arguments takes up the parts that they spell from left to right. -/
theorem Spelled.readArguments_eq {args : List String} {parts : List Part} (h : Spelled args parts)
    (g : Given) : readArguments g args = parts.foldlM Given.add g := by
  induction h generalizing g with
  | nil => rfl
  | @cons p front args parts hfront _ ih =>
    rw [readArguments_append hfront, List.foldlM_cons]
    exact congrArg _ (funext ih)
  | paths values =>
    rw [List.foldlM_map, readArguments.eq_def]
    simp [Given.add]

/-- One step after the other succeeds if both do. -/
theorem bind_eq_ok_iff {ε α β : Type} {x : Except ε α} {f : α → Except ε β} {b : β} :
    (x >>= f) = .ok b ↔ ∃ a, x = .ok a ∧ f a = .ok b := by
  cases x <;> simp [bind, Except.bind]

/-- A part behind which parts were read. -/
theorem exists_parts_cons {p : Part} {front args : List String} {g g' : Given}
    (hp : p.Spelled front)
    (ih : ∀ g₁, readArguments g₁ args = .ok g' →
      ∃ parts, Spelled args parts ∧ parts.foldlM Given.add g₁ = .ok g')
    (h : (do readArguments (← g.add p) args) = .ok g') :
    ∃ parts, Spelled (front ++ args) parts ∧ parts.foldlM Given.add g = .ok g' := by
  obtain ⟨g₁, hg, hrest⟩ := bind_eq_ok_iff.mp h
  obtain ⟨parts, hparts, hfold⟩ := ih g₁ hrest
  refine ⟨p :: parts, .cons hp hparts, ?_⟩
  rw [List.foldlM_cons]
  exact bind_eq_ok_iff.mpr ⟨g₁, hg, hfold⟩

/-- Arguments that can be read spell parts. -/
theorem exists_parts {g g' : Given} {args : List String} (h : readArguments g args = .ok g') :
    ∃ parts, Spelled args parts ∧ parts.foldlM Given.add g = .ok g' := by
  fun_induction readArguments g args with
  | case1 => exact ⟨[], .nil, h⟩
  | case2 g arg rest harg =>
    obtain rfl : arg = "--" := String.toList_inj.mp harg
    exact ⟨rest.map .path, .paths rest, by rwa [List.foldlM_map]⟩
  | case3 g arg rest body _ harg key value hsplit ih =>
    obtain ⟨hequals, rfl⟩ := splitValue_eq hsplit
    obtain rfl : arg = "--" ++ key ++ "=" ++ value := String.toList_inj.mp (by simp [harg])
    exact exists_parts_cons (.longAttached hequals) ih h
  | case5 g arg body hbody harg key hsplit hkey value rest hvalue ih =>
    obtain ⟨hequals, rfl⟩ := splitValue_eq hsplit
    obtain rfl : arg = "--" ++ key := String.toList_inj.mp (by simp [harg])
    exact exists_parts_cons (.long hkey (Bool.eq_false_iff.mpr hvalue)) ih h
  | case7 g arg rest body hbody harg key hsplit hkey ih =>
    obtain ⟨hequals, rfl⟩ := splitValue_eq hsplit
    obtain rfl : arg = "--" ++ key := String.toList_inj.mp (by simp [harg])
    have hne : key ≠ "" := fun hempty => hbody (by simp [hempty])
    exact exists_parts_cons (.switch hne hequals (Bool.eq_false_iff.mpr hkey)) ih h
  | case9 g arg harg value rest hvalue ih =>
    obtain rfl : arg = "-o" := String.toList_inj.mp harg
    exact exists_parts_cons (.short (Bool.eq_false_iff.mpr hvalue)) ih h
  | case11 g arg rest value harg ih =>
    obtain rfl : arg = "-o=" ++ String.ofList value := String.toList_inj.mp (by simp [harg])
    exact exists_parts_cons .shortEquals ih h
  | case12 g arg rest value hne hequals harg ih =>
    obtain rfl : arg = "-o" ++ String.ofList value := String.toList_inj.mp (by simp [harg])
    have hhead : value.head? ≠ some '=' := by
      intro hhead
      obtain ⟨more, rfl⟩ := List.head?_eq_some_iff.mp hhead
      exact hequals more rfl
    exact exists_parts_cons (.shortAttached (by simpa using hne) (by simpa using hhead)) ih h
  | case15 g arg rest _ _ _ _ _ _ hflag ih =>
    exact exists_parts_cons (.path (looksLikeFlag_eq_false_iff.mpr hflag)) ih h
  | case4 | case6 | case8 | case10 | case13 | case14 => cases h

/-! ## What parts ask for -/

/-- The path that a part is. -/
def Part.path? : Part → Option String
  | .path value => some value
  | .switch _ => none
  | .option _ _ => none

/-- The value that a part gives to the option with a key. -/
def Part.value? (key : String) : Part → Option String
  | .option k value => if k = key then some value else none
  | .switch _ => none
  | .path _ => none

/-- There is such a part, and it can have such a value. -/
def Part.Known : Part → Prop
  | .switch key => key ∈ ["ast", "semantic", "stdout", "trace"]
  | .option key value => key = "output" ∧ value ≠ "" ∨ key = "name"
      ∨ key = "policy" ∧ value ∈ ["reactive", "referred"]
  | .path value => value ≠ ""

/-- What was read is what the parts say, each of them once. -/
structure Given.Holds (g : Given) (parts : List Part) : Prop where
  known : ∀ p ∈ parts, p.Known
  input : parts.filterMap Part.path? = g.input.toList
  output : parts.filterMap (Part.value? "output") = g.output.toList
  name : parts.filterMap (Part.value? "name") = g.name.toList
  policy : parts.filterMap (Part.value? "policy") = g.policy.toList.map NotifyPolicy.key
  ast : parts.count (.switch "ast") = g.ast.toNat
  semantic : parts.count (.switch "semantic") = g.semantic.toNat
  toStdout : parts.count (.switch "stdout") = g.toStdout.toNat
  trace : parts.count (.switch "trace") = g.trace.toNat

theorem holds_nil {g : Given} : g.Holds [] ↔ g = {} := by
  constructor
  · rintro ⟨-, hinput, houtput, hname, hpolicy, hast, hsemantic, htoStdout, htrace⟩
    obtain ⟨input, ast, semantic, output, toStdout, name, policy, trace⟩ := g
    simp only [List.filterMap_nil, List.nil_eq, Option.toList_eq_nil_iff,
      List.map_eq_nil_iff] at hinput houtput hname hpolicy
    simp only [List.count_nil, eq_comm (a := 0), Bool.toNat_eq_zero] at hast hsemantic
    simp only [List.count_nil, eq_comm (a := 0), Bool.toNat_eq_zero] at htoStdout htrace
    subst hinput houtput hname hpolicy hast hsemantic htoStdout htrace
    rfl
  · rintro rfl
    constructor <;> simp

/-- What taking up a part does. -/
inductive Given.Takes (g : Given) : Part → Given → Prop where
  | ast (h : g.ast = false) : Takes g (.switch "ast") { g with ast := true }
  | semantic (h : g.semantic = false) : Takes g (.switch "semantic") { g with semantic := true }
  | toStdout (h : g.toStdout = false) : Takes g (.switch "stdout") { g with toStdout := true }
  | trace (h : g.trace = false) : Takes g (.switch "trace") { g with trace := true }
  | output {value : String} (h : g.output = none) (hvalue : value ≠ "") :
      Takes g (.option "output" value) { g with output := some value }
  | name {value : String} (h : g.name = none) :
      Takes g (.option "name" value) { g with name := some value }
  | policy {p : NotifyPolicy} (h : g.policy = none) :
      Takes g (.option "policy" p.key) { g with policy := some p }
  | path {value : String} (h : g.input = none) (hvalue : value ≠ "") :
      Takes g (.path value) { g with input := some value }

theorem ofKey?_eq_some_iff {value : String} {p : NotifyPolicy} :
    NotifyPolicy.ofKey? value = some p ↔ value = p.key := by
  constructor
  · intro h
    unfold NotifyPolicy.ofKey? at h
    split at h <;> cases h <;> rfl
  · rintro rfl
    exact NotifyPolicy.ofKey?_key p

theorem Given.add_eq_ok_iff {g g' : Given} {p : Part} : g.add p = .ok g' ↔ g.Takes p g' := by
  constructor
  · intro h
    cases p with
    | switch key =>
      simp only [Given.add, Given.switch] at h
      split at h
      · split at h <;> cases h
        exact .ast (Bool.eq_false_iff.mpr ‹_›)
      · split at h <;> cases h
        exact .semantic (Bool.eq_false_iff.mpr ‹_›)
      · split at h <;> cases h
        exact .toStdout (Bool.eq_false_iff.mpr ‹_›)
      · split at h <;> cases h
        exact .trace (Bool.eq_false_iff.mpr ‹_›)
      · cases h
      · cases h
    | option key value =>
      simp only [Given.add, Given.option] at h
      split at h
      · split at h <;> cases h
        rename_i hfree
        exact .output (by simp_all) (by simp_all)
      · split at h <;> cases h
        exact .name (by simp_all)
      · split at h
        · rename_i p hfree hkey
          cases h
          rw [ofKey?_eq_some_iff.mp hkey]
          exact .policy hfree
        · cases h
      · cases h
    | path value =>
      simp only [Given.add, Given.path] at h
      split at h <;> cases h
      exact .path (by simp_all) (by simp_all)
  · intro h
    cases h <;> simp_all [Given.add, Given.switch, Given.option, Given.path]

theorem filterMap_concat {α β : Type} (f : α → Option β) (xs : List α) (x : α) :
    (xs ++ [x]).filterMap f = xs.filterMap f ++ (f x).toList := by
  rw [List.filterMap_append]
  cases h : f x <;> simp [h]

theorem count_concat {α : Type} [DecidableEq α] (a : α) (xs : List α) (x : α) :
    (xs ++ [x]).count a = xs.count a + if x = a then 1 else 0 := by
  rw [List.count_append, List.count_singleton, beq_eq_decide]
  simp

theorem key_cases (p : NotifyPolicy) : p.key = "reactive" ∨ p.key = "referred" := by
  cases p with
  | reactive => exact .inl rfl
  | referred => exact .inr rfl

/-- A part that is taken up is held from then on. -/
theorem Given.Holds.takes {g g' : Given} {parts : List Part} {p : Part} (h : g.Holds parts)
    (hp : g.Takes p g') : g'.Holds (parts ++ [p]) := by
  obtain ⟨hknown, hinput, houtput, hname, hpolicy, hast, hsemantic, htoStdout, htrace⟩ := h
  -- The part adds to what is said about the field that it sets, and there was nothing before.
  cases hp <;> constructor <;>
    simp_all [Part.path?, Part.value?, Part.Known, or_imp, key_cases]

theorem concat_eq_toList_iff {α : Type} {xs : List α} {x : α} {o : Option α} :
    xs ++ [x] = o.toList ↔ xs = [] ∧ o = some x := by
  cases o with
  | none => simp
  | some y =>
    rw [Option.toList_some, List.append_eq_singleton_iff, Option.some_inj, eq_comm (a := y)]
    simp

theorem succ_eq_toNat_iff {n : Nat} {b : Bool} : n + 1 = b.toNat ↔ n = 0 ∧ b = true := by
  cases b <;> simp

/-- What is held was taken up. -/
theorem Given.Holds.exists_takes {g' : Given} {parts : List Part} {p : Part}
    (h : g'.Holds (parts ++ [p])) : ∃ g : Given, g.Holds parts ∧ g.Takes p g' := by
  have hp : p.Known := h.known p (by simp)
  have hknown : ∀ q ∈ parts, q.Known := fun q hq => h.known q (List.mem_append_left [p] hq)
  obtain ⟨-, hinput, houtput, hname, hpolicy, hast, hsemantic, htoStdout, htrace⟩ := h
  obtain ⟨input, ast, semantic, output, toStdout, name, policy, trace⟩ := g'
  -- Before, the field that the last part sets was as at the start, and the others as they are.
  simp only [filterMap_concat, count_concat] at *
  cases p with
  | switch key =>
    simp only [Part.Known, List.mem_cons, List.not_mem_nil, or_false] at hp
    rcases hp with rfl | rfl | rfl | rfl
    · obtain ⟨-, rfl⟩ := succ_eq_toNat_iff.mp hast
      refine ⟨⟨input, false, semantic, output, toStdout, name, policy, trace⟩, ?_, .ast rfl⟩
      constructor <;> simp_all [Part.path?, Part.value?]
    · obtain ⟨-, rfl⟩ := succ_eq_toNat_iff.mp hsemantic
      refine ⟨⟨input, ast, false, output, toStdout, name, policy, trace⟩, ?_, .semantic rfl⟩
      constructor <;> simp_all [Part.path?, Part.value?]
    · obtain ⟨-, rfl⟩ := succ_eq_toNat_iff.mp htoStdout
      refine ⟨⟨input, ast, semantic, output, false, name, policy, trace⟩, ?_, .toStdout rfl⟩
      constructor <;> simp_all [Part.path?, Part.value?]
    · obtain ⟨-, rfl⟩ := succ_eq_toNat_iff.mp htrace
      refine ⟨⟨input, ast, semantic, output, toStdout, name, policy, false⟩, ?_, .trace rfl⟩
      constructor <;> simp_all [Part.path?, Part.value?]
  | option key value =>
    simp only [Part.Known] at hp
    rcases hp with ⟨rfl, hne⟩ | rfl | ⟨rfl, hvalue⟩
    · obtain ⟨-, rfl⟩ := concat_eq_toList_iff.mp houtput
      refine ⟨⟨input, ast, semantic, none, toStdout, name, policy, trace⟩, ?_, .output rfl hne⟩
      constructor <;> simp_all [Part.path?, Part.value?]
    · obtain ⟨-, rfl⟩ := concat_eq_toList_iff.mp hname
      refine ⟨⟨input, ast, semantic, output, toStdout, none, policy, trace⟩, ?_, .name rfl⟩
      constructor <;> simp_all [Part.path?, Part.value?]
    · cases policy with
      | none => simp [Part.value?] at hpolicy
      | some policy =>
        have hgiven : parts.filterMap (Part.value? "policy") ++ [value]
            = (some policy.key).toList := hpolicy
        obtain ⟨-, hkey⟩ := concat_eq_toList_iff.mp hgiven
        obtain rfl := Option.some_inj.mp hkey
        refine ⟨⟨input, ast, semantic, output, toStdout, name, none, trace⟩, ?_, .policy rfl⟩
        constructor <;> simp_all [Part.path?, Part.value?]
  | path value =>
    obtain ⟨-, rfl⟩ := concat_eq_toList_iff.mp hinput
    refine ⟨⟨none, ast, semantic, output, toStdout, name, policy, trace⟩, ?_, .path rfl hp⟩
    constructor <;> simp_all [Part.path?, Part.value?]

/-- Taking up parts from left to right succeeds exactly with what they say. -/
theorem foldlM_add_eq_ok_iff {parts : List Part} {g : Given} :
    parts.foldlM Given.add {} = .ok g ↔ g.Holds parts := by
  induction parts using List.reverseRecOn generalizing g with
  | nil =>
    rw [holds_nil, List.foldlM_nil, eq_comm (a := g)]
    exact ⟨Except.ok.inj, congrArg _⟩
  | append_singleton parts p ih =>
    rw [List.foldlM_append, bind_eq_ok_iff]
    simp only [List.foldlM_cons, List.foldlM_nil, bind_pure, Given.add_eq_ok_iff, ih]
    constructor
    · rintro ⟨g₁, hparts, hp⟩
      exact hparts.takes hp
    · exact Given.Holds.exists_takes

/-- What parts ask for: an input, a request, and what the options and switches say, with a default
for each option that is not there. -/
structure Asks (parts : List Part) (i : Invocation) : Prop where
  known : ∀ p ∈ parts, p.Known
  input : parts.filterMap Part.path? = [i.input]
  ast : parts.count (.switch "ast") = if i.request = .showComponent then 1 else 0
  semantic : parts.count (.switch "semantic") = if i.request = .showFacts then 1 else 0
  toStdout : parts.count (.switch "stdout") = if i.toStdout then 1 else 0
  trace : parts.count (.switch "trace") = if i.trace then 1 else 0
  name : parts.filterMap (Part.value? "name") = i.name.toList
  output : ∃ given : Option String, parts.filterMap (Part.value? "output") = given.toList
    ∧ i.output = given.getD "a.js"
  policy : ∃ given : Option NotifyPolicy,
    parts.filterMap (Part.value? "policy") = given.toList.map NotifyPolicy.key
      ∧ i.policy = given.getD .reactive

theorem toNat_eq_ite (b : Bool) : b.toNat = if b then 1 else 0 := by cases b <;> rfl

/-- Parts ask for an invocation if what they say are its fields, up to defaults. -/
theorem asks_iff {parts : List Part} {i : Invocation} :
    Asks parts i ↔ ∃ output policy,
      Given.Holds ⟨some i.input, i.request = .showComponent, i.request = .showFacts, output,
        i.toStdout, i.name, policy, i.trace⟩ parts
      ∧ i.output = output.getD "a.js" ∧ i.policy = policy.getD .reactive := by
  constructor
  · rintro ⟨hknown, hinput, hast, hsemantic, htoStdout, htrace, hname, ⟨output, houtput, hi⟩,
      policy, hpolicy, hi'⟩
    refine ⟨output, policy, ⟨hknown, hinput, houtput, hname, hpolicy, ?_, ?_, ?_, ?_⟩, hi, hi'⟩ <;>
      simpa only [toNat_eq_ite, decide_eq_true_eq]
  · rintro ⟨output, policy, hholds, hi, hi'⟩
    obtain ⟨hknown, hinput, houtput, hname, hpolicy, hast, hsemantic, htoStdout, htrace⟩ := hholds
    simp only [toNat_eq_ite, decide_eq_true_eq] at hast hsemantic htoStdout htrace
    exact ⟨hknown, hinput, hast, hsemantic, htoStdout, htrace, hname, ⟨output, houtput, hi⟩,
      policy, hpolicy, hi'⟩

/-- Arguments stand for an invocation exactly if they spell parts that ask for it. -/
theorem ofArguments_eq_ok_iff {args : List String} {i : Invocation} :
    Invocation.ofArguments args = .ok i ↔ ∃ parts, Spelled args parts ∧ Asks parts i := by
  unfold Invocation.ofArguments
  rw [bind_eq_ok_iff]
  constructor
  · rintro ⟨⟨input, ast, semantic, output, toStdout, name, policy, trace⟩, hread, hg⟩
    obtain ⟨parts, hparts, hfold⟩ := exists_parts hread
    have hholds := foldlM_add_eq_ok_iff.mp hfold
    refine ⟨parts, hparts, asks_iff.mpr ⟨output, policy, ?_⟩⟩
    cases input with
    | none => cases hg
    | some input =>
      -- The two requests that exclude each other tell what is asked for.
      cases ast <;> cases semantic <;> cases hg <;> exact ⟨hholds, rfl, rfl⟩
  · rintro ⟨parts, hparts, hasks⟩
    obtain ⟨output, policy, hholds, hi, hi'⟩ := asks_iff.mp hasks
    have hread := hparts.readArguments_eq {}
    rw [foldlM_add_eq_ok_iff.mpr hholds] at hread
    refine ⟨_, hread, ?_⟩
    obtain ⟨input, request, _, toStdout, name, _, trace⟩ := i
    obtain rfl := hi
    obtain rfl := hi'
    cases request <;> rfl

end Reactive.CommandLine
