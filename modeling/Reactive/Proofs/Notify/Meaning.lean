/-
  What announcing writes does to the meaning of a script.

  A write that is announced becomes a sequence, and a sequence gives what its last part gives.
  Its effect stays, and so does everything around it, but its value is that of the notification.
  Where the values of the announced writes do not matter, the meaning is kept.
-/
import Reactive.Proofs.Notify.Announce
import Reactive.Proofs.Script.Evaluation

namespace Reactive

open Script

/-- Notifications change nothing and give the undefined value. -/
def Script.Host.Silent (H : Host) : Prop :=
  ∀ names, H.eval (refreshTree names) = fun k => pure (.value (H.undefined k))

section

variable (f : Facts) (tracked : List String)

/-! ## Writes without values -/

/-- What a tree means if the writes that are announced give the undefined value. -/
def mutedEval (H : Host) (t : Tree) : ScopeCursor → H.Action :=
  t.fold fun l s children cursor =>
    let written := (Script.Tree.node l s (children.map (·.1))).writtenNames
    H.observe (notifiedNames f tracked cursor written).isEmpty
      (H.node l s (children.map fun c => c.2 (cursor.inside l s)))

theorem mutedEval_node (H : Host) (l : Label) (s : Span) (cs : List Tree) (cursor : ScopeCursor) :
    mutedEval f tracked H (.node l s cs) cursor =
      H.observe (notifiedNames f tracked cursor (Script.Tree.node l s cs).writtenNames).isEmpty
        (H.node l s (cs.map fun c => mutedEval f tracked H c (cursor.inside l s))) := by
  unfold mutedEval
  rw [Tree.fold_node]
  simp only [List.map_map, Function.comp_def, List.map_id']

/-- A write and a silent notification: the effect of the write, and no value. -/
theorem eval_announced {H : Host} (hH : H.Silent) (write : Tree) (names : List String) :
    H.eval (announced write names) = H.mute (H.eval write) := by
  rw [announced, Host.eval_node]
  show H.before (H.eval write) (H.valued (H.eval (refreshTree names))) = H.mute (H.eval write)
  rw [hH names]
  funext k
  simp [Host.mute, Host.before, Host.valued, Host.get]

/-- Announcing takes the value of every announced write away, and nothing else. -/
theorem eval_notifyTree {H : Host} (hH : H.Silent) (t : Tree) (cursor : ScopeCursor) :
    H.eval (notifyTree f tracked t cursor) = mutedEval f tracked H t cursor := by
  induction t using Tree.ind generalizing cursor with
  | node l s cs ih =>
    have hparts : H.eval (announcedParts f tracked l s cs cursor)
        = H.node l s (cs.map fun c => mutedEval f tracked H c (cursor.inside l s)) := by
      rw [announcedParts, Host.eval_node, List.map_map]
      congr 1
      exact List.map_congr_left fun c hc => ih c hc (cursor.inside l s)
    rw [notifyTree_node, mutedEval_node, ← hparts]
    dsimp only
    split
    · rename_i hnil
      rw [hnil]
      rfl
    · rename_i hne
      rw [List.isEmpty_eq_false_iff.mpr hne, eval_announced hH, Host.observe_false]

/-! ## Values that do not matter -/

/-- Every write that is announced stands where its value does not matter, given whether the value
of the whole matters. -/
def announcedUnused (t : Tree) : ScopeCursor → Bool → Bool :=
  t.fold fun l s children cursor used =>
    let written := (Script.Tree.node l s (children.map (·.1))).writtenNames
    (!used || (notifiedNames f tracked cursor written).isEmpty)
      && (children.mapIdx fun i c =>
        c.2 (cursor.inside l s) (l.flow.uses children.length used i)).all id

theorem announcedUnused_node (l : Label) (s : Span) (cs : List Tree) (cursor : ScopeCursor)
    (used : Bool) :
    announcedUnused f tracked (.node l s cs) cursor used = true ↔
      (used = false ∨ notifiedNames f tracked cursor (Script.Tree.node l s cs).writtenNames = [])
        ∧ ∀ i c, cs[i]? = some c → announcedUnused f tracked c (cursor.inside l s)
          (l.flow.uses cs.length used i) = true := by
  unfold announcedUnused
  rw [Tree.fold_node]
  simp only [List.map_map, Function.comp_def, List.map_id', Bool.and_eq_true, Bool.or_eq_true,
    Bool.not_eq_true', List.isEmpty_iff, List.length_map, List.all_eq_true]
  refine and_congr_right fun _ => ⟨fun h i c hc => h _ ?_, fun h b hb => ?_⟩
  · rw [List.mem_iff_getElem?]
    refine ⟨i, ?_⟩
    rw [List.getElem?_mapIdx, List.getElem?_map, hc]
    rfl
  · obtain ⟨i, hi⟩ := List.mem_iff_getElem?.mp hb
    rw [List.getElem?_mapIdx, List.getElem?_map] at hi
    cases hc : cs[i]? with
    | none => simp [hc] at hi
    | some c =>
      rw [hc] at hi
      rw [← Option.some.inj hi]
      exact h i c hc

/-- Where the values of the announced writes do not matter, announcing keeps the meaning. -/
theorem observe_notifyTree {H : Host} (hH : H.Silent) {t : Tree} {cursor : ScopeCursor}
    {used : Bool} (h : announcedUnused f tracked t cursor used = true) :
    H.observe used (H.eval (notifyTree f tracked t cursor)) = H.observe used (H.eval t) := by
  induction t using Tree.ind generalizing cursor used with
  | node l s cs ih =>
    obtain ⟨hself, hcs⟩ := (announcedUnused_node f tracked l s cs cursor used).mp h
    have hparts : H.observe used (H.eval (announcedParts f tracked l s cs cursor))
        = H.observe used (H.eval (.node l s cs)) := by
      rw [announcedParts, Host.eval_node, Host.eval_node, List.map_map]
      exact H.observe_node l s used cs fun i c hc =>
        ih c (List.mem_of_getElem? hc) (hcs i c hc)
    rw [notifyTree_node]
    dsimp only
    split
    · exact hparts
    · -- The write is announced, so that its value does not matter here.
      rename_i hne
      obtain rfl : used = false := hself.resolve_right hne
      rw [eval_announced hH, Host.observe_false, Host.mute_mute]
      exact hparts

end

/-! ## Announcing and meaning -/

/-- Announcing keeps the effects of an expression and takes the values of the announced writes
away. Value and store stay the same wherever those values do not matter. -/
theorem announcing_keeps_effects {H : Host} (hH : H.Silent) (f : Facts) (p : NotifyPolicy)
    (e : Tree) (cursor : ScopeCursor) :
    let output := notifyTree f (p.tracked f) e cursor
    H.eval output = mutedEval f (p.tracked f) H e cursor
      ∧ (announcedUnused f (p.tracked f) e cursor true = true → H.eval output = H.eval e)
      ∧ (announcedUnused f (p.tracked f) e cursor false = true →
        H.mute (H.eval output) = H.mute (H.eval e)) := by
  intro output
  refine ⟨eval_notifyTree f _ hH e cursor, fun h => ?_, fun h => ?_⟩
  · exact observe_notifyTree f _ hH h
  · exact observe_notifyTree f _ hH h

/-! ## A host with numbers -/

namespace Script

/-- Variables hold a number or nothing. -/
def Carrier.numbers : Carrier :=
  { Store := fun _ => String → Option Int
    Value := fun _ => Option Int
    Place := fun _ => String
    Stop := fun _ => Empty }

/-- Reads the number of an outcome. -/
def readNumber {k : Nat} : Outcome (Option Int) String → Carrier.numbers.Effect k (Option Int)
  | .value v => pure v
  | .place x => do
    let s ← get
    pure (s x)

/-- Writes a number to an outcome that is a place. -/
def writeNumber {k : Nat} : Outcome (Option Int) String → Option Int →
    Carrier.numbers.Effect k PUnit
  | .value _, _ => pure ()
  | .place x, v => modify fun s y => if y = x then v else s y

/-- A host that knows variables, plain assignments and updates; all else is undefined. -/
def Host.numbers : Host :=
  { Carrier.numbers with
    undefined := fun _ => none
    load := fun x => readNumber (.place x)
    truthy := fun v => v.any (· != 0)
    nullish := Option.isNone
    perform := fun l _ parts =>
      match l, parts with
      | .identifier x, _ => fun _ => pure (.place x)
      | .assign .plain, [target, value] => fun k => do
        let place ← target k
        let v ← readNumber (← value k)
        writeNumber place v
        pure (.value v)
      | .update op before, [target] => fun k => do
        let place ← target k
        let old ← readNumber place
        let new := old.map (· + if op = .increment then 1 else -1)
        writeNumber place new
        pure (.value (if before then new else old))
      | _, _ => fun _ => pure (.value none) }

theorem Host.silent_numbers : Host.numbers.Silent := fun names => by
  rw [refreshTree, Host.eval_node]
  rfl

/-- What is in a variable after evaluating a tree, where every variable holds zero at first. -/
def Host.numberAfter (t : Tree) (x : String) : Option Int :=
  (Host.numbers.eval t 0 fun _ => some 0).2 x

end Script

/-- The value of `x++, x` survives: that of the write inside it does not matter. -/
theorem announcing_keeps_sequence :
    let c : Component := ⟨"", ⟨[], []⟩, some ⟨"let x = 0; x++, x;", []⟩⟩
    let f := analyze c
    ∃ e, (programTree c.scriptSource.toList).tree.at? [1, 0] = some e
      ∧ announcedUnused f f.reactive e (.start f.scopes) true = true
      ∧ ((notifyTree f f.reactive e (.start f.scopes)).at? [0]).map Tree.label = some .sequence
      ∧ Host.numbers.eval (notifyTree f f.reactive e (.start f.scopes)) = Host.numbers.eval e := by
  intro c f
  have hcompute : ((programTree c.scriptSource.toList).tree.at? [1, 0]).map
      (fun e => (announcedUnused f f.reactive e (.start f.scopes) true,
        ((notifyTree f f.reactive e (.start f.scopes)).at? [0]).map Tree.label))
      = some (true, some .sequence) := by
    decide +kernel
  obtain ⟨e, he, hvalues⟩ := Option.map_eq_some_iff.mp hcompute
  rw [Prod.mk.injEq] at hvalues
  exact ⟨e, he, hvalues.1, hvalues.2,
    (announcing_keeps_effects Host.silent_numbers f .reactive e _).2.1 hvalues.1⟩

/-- The value of `x++` in `y = x++` is lost: the variable `y` is left undefined. -/
theorem announcing_loses_value :
    let c : Component := ⟨"", ⟨[], []⟩, some ⟨"let x = 0; let y = 0; y = x++;", []⟩⟩
    let f := analyze c
    Host.numbers.Silent
      ∧ ∃ e, (programTree c.scriptSource.toList).tree.at? [2, 0] = some e
        ∧ Host.numberAfter e "y" = some 0
        ∧ Host.numberAfter (notifyTree f (NotifyPolicy.reactive.tracked f) e (.start f.scopes)) "y"
          = none := by
  intro c f
  refine ⟨Host.silent_numbers, ?_⟩
  have hcompute : ((programTree c.scriptSource.toList).tree.at? [2, 0]).map
      (fun e => (Host.numberAfter e "y",
        Host.numberAfter (notifyTree f f.reactive e (.start f.scopes)) "y"))
      = some (some 0, none) := by
    decide +kernel
  obtain ⟨e, he, hvalues⟩ := Option.map_eq_some_iff.mp hcompute
  rw [Prod.mk.injEq] at hvalues
  exact ⟨e, he, hvalues.1, hvalues.2⟩

end Reactive
