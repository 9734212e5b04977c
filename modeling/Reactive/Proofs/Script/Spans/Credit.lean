/-
  Scopes open at different places.

  Fix an offset and count the nodes that open a scope there. A state of the parser has credit for the
  offset: one as long as the offset is not behind it, and one for each such node among the defaults
  that still wait for their place. A reader spends: what its result counts, and the credit that is
  left, are not more than the credit there was and what its caller holds. Going on from a word or a
  punctuator at the offset gives one to hold, and a node that opens a scope starts with such a token,
  so all of a script opens at most one scope at the offset. Everything about the grammar is put
  together from the rules at the end of this file.
-/
import Mathlib.Algebra.GroupWithZero.Nat
import Reactive.Proofs.Script.Progress
import Reactive.Proofs.Script.Reading
import Reactive.Proofs.Script.Replay

namespace Reactive.Script

/-! ## Counting -/

/-- One if the place is the offset `n`. -/
def oneAt (n place : Nat) : Nat := if place = n then 1 else 0

namespace Tree

/-- How many nodes of a tree start at an offset and open a scope. -/
def opensAt (n : Nat) (t : Tree) : Nat := (t.openSpans.map Span.start).count n

/-- How many nodes of a list of trees do. -/
def allOpenAt (n : Nat) (ts : List Tree) : Nat := (ts.map (opensAt n)).sum

section

variable (n : Nat)

@[simp] theorem allOpenAt_nil : allOpenAt n [] = 0 := rfl

@[simp] theorem allOpenAt_cons (t : Tree) (ts : List Tree) :
    allOpenAt n (t :: ts) = t.opensAt n + allOpenAt n ts := by
  simp [allOpenAt]

@[simp] theorem allOpenAt_append (ts us : List Tree) :
    allOpenAt n (ts ++ us) = allOpenAt n ts + allOpenAt n us := by
  simp [allOpenAt]

theorem opensAt_node (l : Label) (s : Span) (cs : List Tree) :
    (node l s cs).opensAt n = if l.isImport then 0
      else (if l.opens then oneAt n s.start else 0) + allOpenAt n cs := by
  have hall : ∀ cs : List Tree,
      ((cs.flatMap openSpans).map Span.start).count n = allOpenAt n cs := by
    intro cs
    rw [List.map_flatMap, List.count_flatMap]
    rfl
  rw [opensAt, openSpans_node]
  by_cases hl : l.isImport
  · rw [if_pos hl, if_pos hl]
    rfl
  · rw [if_neg hl, if_neg hl, List.map_append, List.count_append, hall]
    by_cases hopens : l.opens
    · simp [hopens, oneAt, List.count_singleton]
    · simp [hopens]

/-- A node counts at most once for itself, and only if it opens a scope. -/
theorem opensAt_node_le (l : Label) (s : Span) (cs : List Tree) :
    (node l s cs).opensAt n ≤ (if l.opens then oneAt n s.start else 0) + allOpenAt n cs := by
  rw [opensAt_node]
  split
  · exact Nat.zero_le _
  · exact Nat.le_refl _

/-- A node that is no import and opens no scope counts what its parts do. -/
theorem opensAt_parts {l : Label} (hl : l.opens = false) (hl' : l.isImport = false) (s : Span)
    (cs : List Tree) : (node l s cs).opensAt n = allOpenAt n cs := by
  simp [opensAt_node, hl, hl']

@[simp] theorem opensAt_absent : absent.opensAt n = 0 := by
  rw [absent, opensAt_node]
  rfl

/-- A leaf that opens no scope. -/
theorem opensAt_leaf {l : Label} (hl : l.opens = false) (s : Span) :
    (node l s []).opensAt n = 0 := by
  simpa [hl] using opensAt_node_le n l s []

end

end Tree

/-- The node is a variable. -/
def Label.isVariable : Label → Bool
  | .identifier _ => true
  | _ => false

namespace Tree

variable (n : Nat)

/-- What a tree counts, and one more if it is a variable that was read at `place`: a variable before
an arrow is its parameter, and the arrow starts there. -/
def dueAt (place : Nat) (t : Tree) : Nat :=
  t.opensAt n + if t.label.isVariable then oneAt n place else 0

theorem opensAt_le_dueAt (place : Nat) (t : Tree) : t.opensAt n ≤ t.dueAt n place :=
  Nat.le_add_right _ _

theorem dueAt_node {l : Label} (hl : l.isVariable = false) (place : Nat) (s : Span)
    (cs : List Tree) : (node l s cs).dueAt n place = (node l s cs).opensAt n := by
  simp [dueAt, hl]

end Tree

/-! ## Credit -/

namespace Parser

/-- The credit of a state for an offset. -/
def State.credit (n : Nat) (s : State) : Nat :=
  (if s.token.start ≤ n then 1 else 0) + Tree.allOpenAt n (s.defaults.map (·.2))

/-- The text behind the current token does not start before it, and starts behind it if the token is
a word or a punctuator. -/
structure State.Ready (s : State) : Prop where
  here : s.here.offset = s.token.start
  next : s.token.start ≤ s.next.offset
  mark : s.token.kind.isMark → s.token.start < s.next.offset

/-- What a reader gives from a state on: with `held` in hand, it spends no more than there is. -/
def Spends {α : Type} (n : Nat) (s : State) (held : Nat) (p : Parser α) (out : α → Nat) : Prop :=
  s.Ready → ∀ a s', p s = .ok a s' → s'.Ready ∧ out a + s'.credit n ≤ held + s.credit n

/-- A reader spends wherever it starts, with nothing in hand. -/
def Costs {α : Type} (n : Nat) (p : Parser α) (out : α → Nat) : Prop :=
  ∀ s, Spends n s 0 p out

/-- A reader that only looks. -/
def Looks {α : Type} (p : Parser α) : Prop := ∀ s a s', p s = .ok a s' → s' = s

section

variable {α β : Type} {n held : Nat} {s : State} {p : Parser α} {f : α → Nat} {q : α → Parser β}
  {out : β → Nat}

/-- A reader that succeeds behind another one. -/
theorem exists_of_bind {b : β} {s' : State} (h : (p >>= q) s = .ok b s') :
    ∃ a s₁, p s = .ok a s₁ ∧ q a s₁ = .ok b s' := by
  change EStateM.bind p q s = _ at h
  unfold EStateM.bind at h
  split at h
  · rename_i a s₁ ha
    exact ⟨a, s₁, ha, h⟩
  · cases h

namespace Spends

theorem bind (hp : Spends n s held p f) (hq : ∀ a s', Spends n s' (f a) (q a) out) :
    Spends n s held (p >>= q) out := by
  intro hs b s' h
  obtain ⟨a, s₁, ha, hb⟩ := exists_of_bind h
  obtain ⟨hs₁, hcredit₁⟩ := hp hs a s₁ ha
  obtain ⟨hs', hcredit'⟩ := hq a s₁ hs₁ b s' hb
  exact ⟨hs', Nat.le_trans hcredit' hcredit₁⟩

theorem mono {held' : Nat} {f' : α → Nat} (h : Spends n s held p f) (hheld : held ≤ held')
    (hf : ∀ a, f' a ≤ f a) : Spends n s held' p f' := by
  intro hs a s' ha
  obtain ⟨hs', hcredit⟩ := h hs a s' ha
  have := hf a
  exact ⟨hs', by omega⟩

/-- Not everything in hand is needed. -/
theorem less {some : Nat} (hsome : some ≤ held) (h : Spends n s some p f) : Spends n s held p f :=
  h.mono hsome fun _ => Nat.le_refl _

/-- What is in hand besides stays in hand. -/
theorem frame (more : Nat) (h : Spends n s held p f) :
    Spends n s (held + more) p fun a => f a + more := by
  intro hs a s' ha
  obtain ⟨hs', hcredit⟩ := h hs a s' ha
  refine ⟨hs', ?_⟩
  dsimp only
  omega

theorem frameLeft (more : Nat) (h : Spends n s held p f) :
    Spends n s (more + held) p fun a => more + f a :=
  (h.frame more).mono (Nat.add_comm held more).le fun a => (Nat.add_comm more (f a)).le

theorem keep (h : Spends n s 0 p f) : Spends n s held p fun a => f a + held :=
  (h.frame held).mono (Nat.zero_add held).le fun _ => Nat.le_refl _

theorem pure {a : α} (h : f a ≤ held) : Spends n s held (pure a) f := by
  rintro hs _ _ ⟨rfl, rfl⟩
  exact ⟨hs, Nat.add_le_add_right h _⟩

/-- A reader behind a value that is given. -/
theorem given {a : α} (hq : Spends n s held (q a) out) :
    Spends n s held (Pure.pure a >>= q) out := hq

theorem throw (e : Fault) : Spends n s held (throw e) f := fun _ _ _ h => nomatch h

theorem unexpected : Spends n s held unexpected f := fun _ _ _ h => nomatch h

/-- Nothing is read behind a fault. -/
theorem stopped : Spends n s held (Parser.unexpected >>= q) out := fun _ _ _ h => nomatch h

theorem ite {c : Prop} [Decidable c] {p q : Parser α} (hp : c → Spends n s held p f)
    (hq : ¬c → Spends n s held q f) : Spends n s held (if c then p else q) f := by
  split
  · exact hp ‹_›
  · exact hq ‹_›

/-- A reader, with what it leaves. -/
theorem step (hp : Costs n p f) (hq : ∀ a s', Spends n s' (f a + held) (q a) out) :
    Spends n s held (p >>= q) out := (hp s).keep.bind hq

/-- A reader that gives nothing to hold. -/
theorem skip (hp : Costs n p fun _ => 0) (hq : ∀ a s', Spends n s' held (q a) out) :
    Spends n s held (p >>= q) out :=
  step hp fun a s' => (hq a s').less (Nat.zero_add held).ge

/-- Behind a reader that only looks, the state is the same. -/
theorem look (hp : Looks p) (hq : ∀ a, p s = .ok a s → Spends n s held (q a) out) :
    Spends n s held (p >>= q) out := by
  intro hs b s' h
  obtain ⟨a, s₁, ha, hb⟩ := exists_of_bind h
  obtain rfl := hp s a s₁ ha
  exact hq a ha hs b s' hb

theorem get {q : State → Parser β} (hq : Spends n s held (q s) out) :
    Spends n s held (get >>= q) out := hq

theorem start {q : Nat → Parser β} (hq : Spends n s held (q s.token.start) out) :
    Spends n s held (start >>= q) out := hq

theorem kind {q : TokenKind → Parser β} (hq : Spends n s held (q s.token.kind) out) :
    Spends n s held (kind >>= q) out := hq

theorem token {q : Token → Parser β} (hq : Spends n s held (q s.token) out) :
    Spends n s held (token >>= q) out := hq

theorem context {q : Context → Parser β} (hq : Spends n s held (q s.context) out) :
    Spends n s held (context >>= q) out := hq

end Spends

end

section

variable {α β : Type} {n held : Nat} {s : State} {p : Parser α} {f : α → Nat} {q : α → Parser β}
  {out : β → Nat} {q' : Unit → Parser β}

/-! ### Readers that only look -/

namespace Looks

theorem bind (hp : Looks p) (hq : ∀ a, Looks (q a)) : Looks (p >>= q) := by
  intro s b s' h
  obtain ⟨a, s₁, ha, hb⟩ := exists_of_bind h
  obtain rfl := hp s a s₁ ha
  exact hq a _ b s' hb

theorem pure (a : α) : Looks (pure a : Parser α) := by
  rintro s _ _ ⟨rfl, rfl⟩
  rfl

theorem ite {c : Prop} [Decidable c] {p q : Parser α} (hp : Looks p) (hq : Looks q) :
    Looks (if c then p else q) := by
  split
  · exact hp
  · exact hq

theorem get : Looks (get : Parser State) := by
  rintro s _ _ ⟨rfl, rfl⟩
  rfl

theorem token : Looks token := get.bind fun _ => pure _

theorem kind : Looks kind := get.bind fun _ => pure _

theorem context : Looks context := get.bind fun _ => pure _

theorem atPunct (text : String) : Looks (atPunct text) :=
  kind.bind fun k => by split <;> exact pure _

theorem atWord (text : String) : Looks (atWord text) :=
  kind.bind fun k => by split <;> exact pure _

theorem atEnd : Looks atEnd := kind.bind fun k => by split <;> exact pure _

theorem lookahead (p : Parser α) : Looks (lookahead p) := by
  intro s a s' h
  obtain ⟨s₀, s₁, hget, h⟩ := exists_of_bind h
  cases hget
  obtain ⟨a', s₂, -, h⟩ := exists_of_bind h
  cases h
  rfl

theorem following : Looks following := lookahead _

theorem canEnd : Looks canEnd := token.bind fun t => by split <;> exact pure _

theorem atModifier (w : String) (sameLine : Bool) : Looks (atModifier w sameLine) :=
  (atWord w).bind fun _ => .ite (following.bind fun _ => pure _) (pure _)

end Looks

/-- What a reader found at the current token. -/
theorem run_atPunct (text : String) (s : State) :
    atPunct text s = .ok (decide (s.token.kind = .punct text)) s := by
  refine (run_bind (p := kind) rfl _).trans ?_
  cases s.token.kind with
  | punct q => exact congrArg (EStateM.Result.ok · s) (by simp [eq_comm, Bool.beq_eq_decide_eq])
  | _ => exact congrArg (EStateM.Result.ok · s) (by simp)

theorem run_atWord (text : String) (s : State) :
    atWord text s = .ok (decide (s.token.kind = .word text)) s := by
  refine (run_bind (p := kind) rfl _).trans ?_
  cases s.token.kind with
  | word q => exact congrArg (EStateM.Result.ok · s) (by simp [eq_comm, Bool.beq_eq_decide_eq])
  | _ => exact congrArg (EStateM.Result.ok · s) (by simp)

theorem isMark_of_atPunct {text : String} (h : atPunct text s = .ok true s) :
    s.token.kind.isMark := by
  rw [run_atPunct] at h
  rw [of_decide_eq_true (EStateM.Result.ok.inj h).1]
  rfl

theorem isMark_of_atWord {text : String} (h : atWord text s = .ok true s) :
    s.token.kind.isMark := by
  rw [run_atWord] at h
  rw [of_decide_eq_true (EStateM.Result.ok.inj h).1]
  rfl

/-! ### Going on -/

theorem Costs.flaw : Costs n flaw fun _ => 0 := by
  rintro s hs _ _ ⟨rfl, rfl⟩
  exact ⟨⟨hs.here, hs.next, hs.mark⟩, Nat.le_refl _⟩

theorem Costs.flawIf (b : Bool) : Costs n (flawIf b) fun _ => 0 := by
  intro s
  unfold Parser.flawIf
  split
  · exact flaw s
  · exact .pure (Nat.le_refl _)

theorem State.Ready.advance (s : State) {s' : State} (h : advance s = .ok () s') :
    s'.Ready ∧ s.next.offset ≤ s'.token.start ∧ s'.defaults = s.defaults := by
  obtain ⟨rfl, rfl⟩ := h
  obtain ⟨hnext, hmark⟩ := nextToken_next s.next s.trivia
  exact ⟨⟨rfl, hnext, hmark⟩, nextToken_start _ _, rfl⟩

/-- Going on from a word or a punctuator gives one to hold if it starts at the offset. -/
theorem Spends.advance_mark (hmark : s.token.kind.isMark) :
    Spends n s held advance fun _ => oneAt n s.token.start + held := by
  intro hs _ s' h
  obtain ⟨hs', hle, hdefaults⟩ := State.Ready.advance s h
  have hlt := hs.mark hmark
  refine ⟨hs', ?_⟩
  simp only [State.credit, hdefaults, oneAt]
  split <;> split <;> split <;> omega

theorem Costs.advance : Costs n advance fun _ => 0 := by
  intro s hs _ s' h
  obtain ⟨hs', hle, hdefaults⟩ := State.Ready.advance s h
  have hlt := hs.next
  refine ⟨hs', ?_⟩
  simp only [State.credit, hdefaults]
  split <;> split <;> omega

/-- A keyword at the offset gives one to hold as well. -/
theorem Spends.advanceKeyword_mark (hmark : s.token.kind.isMark) :
    Spends n s held advanceKeyword fun _ => oneAt n s.token.start + held := by
  refine .token ?_
  unfold Parser.flawIf
  split
  · intro hs
    have hflawed : ({ s with flaws := s.token.start :: s.flaws } : State).Ready :=
      ⟨hs.here, hs.next, hs.mark⟩
    exact advance_mark hmark hflawed
  · exact advance_mark hmark

theorem Costs.advanceKeyword : Costs n advanceKeyword fun _ => 0 :=
  fun _ => .token (.skip (.flawIf _) fun _ s => Costs.advance s)

/-- What is eaten gives one to hold if it starts at the offset. -/
theorem Spends.eatPunct (text : String) : Spends n s held (eatPunct text) fun ate =>
    (if ate then oneAt n s.token.start else 0) + held := by
  refine .look (.atPunct text) fun b hb => ?_
  cases b with
  | true =>
    exact (advance_mark (isMark_of_atPunct hb)).bind fun _ _ => .pure (Nat.le_refl _)
  | false => exact .pure (Nat.zero_add held).le

theorem Spends.eatWord (text : String) : Spends n s held (eatWord text) fun ate =>
    (if ate then oneAt n s.token.start else 0) + held := by
  refine .look (.atWord text) fun b hb => ?_
  cases b with
  | true =>
    exact (advanceKeyword_mark (isMark_of_atWord hb)).bind fun _ _ => .pure (Nat.le_refl _)
  | false => exact .pure (Nat.zero_add held).le

theorem Spends.expectPunct (text : String) : Spends n s held (expectPunct text) fun _ =>
    oneAt n s.token.start + held := by
  refine (eatPunct text).bind fun ate _ => ?_
  cases ate with
  | true => exact .pure (Nat.le_refl _)
  | false => exact .unexpected

theorem Spends.expectWord (text : String) : Spends n s held (expectWord text) fun _ =>
    oneAt n s.token.start + held := by
  refine (eatWord text).bind fun ate _ => ?_
  cases ate with
  | true => exact .pure (Nat.le_refl _)
  | false => exact .unexpected

/-! Where the token is not needed, nothing is held for it. -/

namespace Costs

theorem of_spends {g : State → α → Nat} (h : ∀ s, Spends n s 0 p (g s)) : Costs n p fun _ => 0 :=
  fun s => (h s).mono (Nat.le_refl _) fun _ => Nat.zero_le _

theorem eatPunct (text : String) : Costs n (eatPunct text) fun _ => 0 :=
  of_spends fun _ => .eatPunct text

theorem eatWord (text : String) : Costs n (eatWord text) fun _ => 0 :=
  of_spends fun _ => .eatWord text

theorem expectPunct (text : String) : Costs n (expectPunct text) fun _ => 0 :=
  of_spends fun _ => .expectPunct text

theorem expectWord (text : String) : Costs n (expectWord text) fun _ => 0 :=
  of_spends fun _ => .expectWord text

theorem endStatement : Costs n endStatement fun _ => 0 := fun _ =>
  .skip (.eatPunct _) fun ate _ => by
    cases ate with
    | true => exact .pure (Nat.le_refl _)
    | false =>
      refine .look .canEnd fun b _ => ?_
      cases b with
      | true => exact .pure (Nat.le_refl _)
      | false => exact .unexpected

theorem checkName (w : String) : Costs n (checkName w) fun _ => 0 :=
  fun _ => .context (Costs.flawIf _ _)

end Costs

/-! ### Nodes -/

/-- A node that opens a scope is made of its parts and of the token that it starts with. -/
theorem Spends.opener {l : Label} { begin place : Nat} {cs : List Tree}
    (hl : l.isVariable = false) (h : oneAt n begin + Tree.allOpenAt n cs ≤ held) :
    Spends n s held (node l begin cs) (Tree.dueAt n place) := by
  rintro hs _ _ ⟨rfl, rfl⟩
  refine ⟨hs, Nat.add_le_add_right ?_ _⟩
  rw [Tree.dueAt_node n hl]
  refine Nat.le_trans (Tree.opensAt_node_le n l _ cs) ?_
  split
  · exact h
  · exact Nat.le_trans (by omega) h

/-- Another node that is no variable is made of its parts. -/
theorem Spends.nodeDue {l : Label} { begin place : Nat} {cs : List Tree} (hl : l.opens = false)
    (hl' : l.isVariable = false) (h : Tree.allOpenAt n cs ≤ held) :
    Spends n s held (Parser.node l begin cs) (Tree.dueAt n place) := by
  rintro hs _ _ ⟨rfl, rfl⟩
  have hle := Tree.opensAt_node_le n l ⟨begin, s.previousStop⟩ cs
  rw [hl, if_neg Bool.false_ne_true, Nat.zero_add] at hle
  exact ⟨hs, Nat.add_le_add_right (Tree.dueAt_node n hl' _ _ _ ▸ Nat.le_trans hle h) _⟩

theorem Spends.of_due {p : Parser Tree} (h : Spends n s held p (Tree.dueAt n 0)) :
    Spends n s held p (Tree.opensAt n) :=
  h.mono (Nat.le_refl _) fun _ => Tree.opensAt_le_dueAt _ _ _

theorem Spends.node {l : Label} { begin : Nat} {cs : List Tree} (hl : l.opens = false)
    (h : Tree.allOpenAt n cs ≤ held) :
    Spends n s held (Parser.node l begin cs) (Tree.opensAt n) := by
  rintro hs _ _ ⟨rfl, rfl⟩
  have hle := Tree.opensAt_node_le n l ⟨begin, s.previousStop⟩ cs
  rw [hl, if_neg Bool.false_ne_true, Nat.zero_add] at hle
  exact ⟨hs, Nat.add_le_add_right (Nat.le_trans hle h) _⟩

/-! ### Changed contexts -/

theorem Spends.within {change : Context → Context}
    (h : Spends n { s with context := change s.context } held p f) :
    Spends n s held (within change p) f := by
  intro hs a s' hrun
  have hrun : (p >>= fun a => do
      modify fun t => { t with context := s.context }
      return a) { s with context := change s.context } = .ok a s' := hrun
  obtain ⟨a', s₁, hp, hrest⟩ := exists_of_bind hrun
  obtain ⟨hs₁, hcredit⟩ := h ⟨hs.here, hs.next, hs.mark⟩ a' s₁ hp
  obtain ⟨rfl, rfl⟩ := hrest
  exact ⟨⟨hs₁.here, hs₁.next, hs₁.mark⟩, hcredit⟩

theorem Costs.within {change : Context → Context} (h : Costs n p f) :
    Costs n (within change p) f := fun _ => .within (h _)

/-! ### Repetition -/

theorem Costs.itemsUntil {stop : Parser Bool} (hstop : Looks stop) (hitem : Costs n p f) :
    ∀ bound, Costs n (itemsUntil stop p bound) fun as => (as.map f).sum
  | 0 => fun _ => .throw _
  | bound + 1 => fun s => by
    refine .look hstop fun b _ => ?_
    split
    · exact .pure (Nat.le_refl _)
    · refine .step hitem fun a _ => .step (itemsUntil hstop hitem bound) fun as _ => .pure ?_
      simp
      omega

theorem Costs.commaList {close : String} (hitem : Costs n p f) :
    ∀ bound first, Costs n (commaList close p bound first) fun x => (x.1.map f).sum
  | 0, _ => fun _ => .throw _
  | bound + 1, first => fun s => by
    unfold Parser.commaList
    refine .look (.atPunct close) fun b _ => ?_
    split
    · exact .pure (Nat.le_refl _)
    dsimp only
    split
    case' isFalse => refine .skip (.expectPunct _) fun _ s => ?_
    all_goals
      refine .look (.atPunct close) fun last _ => ?_
      split
      · exact .pure (Nat.le_refl _)
      · refine .step hitem fun a _ => .step (commaList hitem bound false) fun x _ => .pure ?_
        simp only [List.map_cons, List.sum_cons]
        omega

end

/-! ### Names -/

section

variable {n : Nat}

theorem Costs.bindingName : Costs n bindingName (Tree.opensAt n) := fun s => by
  refine .token ?_
  split
  · split
    · exact .skip (.checkName _) fun _ _ => .skip .advance fun _ _ =>
        .pure (Tree.opensAt_leaf n rfl _).le
    · exact .unexpected
  · exact .unexpected

theorem Costs.anyWord : Costs n anyWord (Tree.opensAt n) := fun s => by
  refine .token ?_
  split
  · exact .skip .advance fun _ _ => .pure (Tree.opensAt_leaf n rfl _).le
  · exact .unexpected

theorem Costs.privateWord : Costs n privateWord (Tree.opensAt n) := fun s => by
  refine .token ?_
  split
  · exact .skip .advance fun _ _ => .pure (Tree.opensAt_leaf n rfl _).le
  · exact .unexpected

theorem Costs.labelName : Costs n labelName (Tree.opensAt n) := fun s => by
  refine .token ?_
  split
  · refine .context ?_
    split
    · exact .skip .advance fun _ _ => .pure (Tree.opensAt_leaf n rfl _).le
    · exact .unexpected
  · exact .unexpected

theorem Costs.stringLiteral : Costs n stringLiteral (Tree.opensAt n) := fun s => by
  refine .token ?_
  split
  · exact .skip .advance fun _ _ => .pure (Tree.opensAt_leaf n rfl _).le
  · exact .unexpected

end

/-! ## Nested rules -/

/-- The rules for what is nested spend like those that they are nested in. -/
structure Rules.Spend (n : Nat) (r : Rules) : Prop where
  expression : Costs n r.expression (Tree.opensAt n)
  assignment : Costs n r.assignment (Tree.opensAt n)
  binary : ∀ level, Costs n (r.binary level) (Tree.opensAt n)
  unary : Costs n r.unary (Tree.opensAt n)
  operand : Costs n r.operand (Tree.opensAt n)
  member : Costs n r.member fun x => x.1.opensAt n
  pattern : Costs n r.pattern (Tree.opensAt n)
  statement : ∀ place, Costs n (r.statement place) (Tree.opensAt n)

end Parser

end Reactive.Script
