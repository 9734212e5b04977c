/-
  Reading goes forward.

  No step of the lexer goes back in the text: the cursor behind a token is not before the token,
  and behind a word or a punctuator it is further on. So the tokens of a script start one after
  the other, and two of them that are words or punctuators never start at the same offset.
-/
import Reactive.Proofs.Script.Scanning

namespace Reactive.Script

/-! ## Cursors -/

namespace Cursor

theorem offset_le_skip (n : Nat) (k : Cursor) : k.offset ≤ (k.skip n).offset := by
  induction n generalizing k with
  | zero => exact Nat.le_refl _
  | succ n ih =>
    obtain ⟨rest, o⟩ := k
    cases rest with
    | nil => exact ih ⟨[], o⟩
    | cons c cs => exact Nat.le_trans (Nat.le_add_right _ _) (ih ⟨cs, o + c.utf8Size⟩)

theorem offset_lt_skip {n : Nat} (hn : 0 < n) {k : Cursor} (hk : k.rest ≠ []) :
    k.offset < (k.skip n).offset := by
  obtain ⟨rest, o⟩ := k
  obtain ⟨n, rfl⟩ := Nat.exists_eq_add_of_le' hn
  cases rest with
  | nil => exact absurd rfl hk
  | cons c cs =>
    exact Nat.lt_of_lt_of_le (Nat.lt_add_of_pos_right c.utf8Size_pos)
      (offset_le_skip n ⟨cs, o + c.utf8Size⟩)

theorem span_go_offset (p : Char → Bool) (cs : List Char) (o : Nat) :
    o ≤ (span.go p cs o).2.offset
    ∧ ((span.go p cs o).1 ≠ [] → o < (span.go p cs o).2.offset) := by
  induction cs generalizing o with
  | nil => exact ⟨Nat.le_refl _, fun h => absurd rfl h⟩
  | cons c cs ih =>
    rw [span.go]
    split
    · have hlt := Nat.lt_of_lt_of_le (Nat.lt_add_of_pos_right c.utf8Size_pos)
        (ih (o + c.utf8Size)).1
      exact ⟨hlt.le, fun _ => hlt⟩
    · exact ⟨Nat.le_refl _, fun h => absurd rfl h⟩

theorem offset_le_span (p : Char → Bool) (k : Cursor) : k.offset ≤ (k.span p).2.offset :=
  (span_go_offset p k.rest k.offset).1

/-- A run that took something moved on. -/
theorem offset_lt_span {p : Char → Bool} {k : Cursor} (h : (k.span p).1 ≠ []) :
    k.offset < (k.span p).2.offset :=
  (span_go_offset p k.rest k.offset).2 h

end Cursor

/-! ## Names -/

/-- A name is not read backwards, and one with characters moved on. -/
theorem nameBody_offset {fuel : Nat} {first : Bool} {k : Cursor} {name : List Char}
    {next : Cursor} {escaped : Bool} (h : nameBody fuel first k = some (name, next, escaped)) :
    k.offset ≤ next.offset ∧ (name ≠ [] → k.offset < next.offset) := by
  induction fuel generalizing first k name next escaped with
  | zero =>
    cases h
    exact ⟨Nat.le_refl _, fun h => absurd rfl h⟩
  | succ fuel ih =>
    cases hk : k.rest with
    | nil =>
      rw [nameBody, hk] at h
      cases h
      exact ⟨Nat.le_refl _, fun h => absurd rfl h⟩
    | cons c cs =>
      by_cases hc : c = '\\'
      · subst hc
        obtain ⟨x, tail, n, more, e, -, -, hmore, -⟩ := nameBody_backslash hk h
        have hlt : k.offset < next.offset :=
          Nat.lt_of_lt_of_le (Cursor.offset_lt_skip (by omega) (by simp [hk])) (ih hmore).1
        exact ⟨hlt.le, fun _ => hlt⟩
      · rw [nameBody_plain hk hc] at h
        split at h
        · split at h
          · rename_i hslash
            obtain ⟨⟨more, next', e⟩, hmore, heq⟩ := Option.map_eq_some_iff.mp h
            cases heq
            have hrun : (k.span isNamePart).1 ≠ [] := by
              -- A run of nothing would stop before `c`, which is no backslash.
              intro hrun
              have hstay := length_span_lt hk (Ne.symm hc) hslash
              rw [Cursor.rest_span] at hstay
              rw [Cursor.fst_span] at hrun
              have := congrArg List.length (List.takeWhile_append_dropWhile (p := isNamePart)
                (l := k.rest))
              rw [hrun, List.nil_append] at this
              omega
            have hlt := Nat.lt_of_lt_of_le (Cursor.offset_lt_span hrun) (ih hmore).1
            exact ⟨hlt.le, fun _ => hlt⟩
          · cases h
            exact ⟨Cursor.offset_le_span _ _, Cursor.offset_lt_span⟩
        · cases h
          exact ⟨Nat.le_refl _, fun h => absurd rfl h⟩

/-- A word ends behind its start. -/
theorem scanName_offset (k : Cursor) :
    k.offset ≤ (scanName k).next.offset
    ∧ ((scanName k).kind ≠ .endOfInput → k.offset < (scanName k).next.offset) := by
  unfold scanName
  split
  · rename_i h
    have hlt := (nameBody_offset h).2 (List.cons_ne_nil _ _)
    exact ⟨hlt.le, fun _ => hlt⟩
  · exact ⟨Cursor.offset_le_skip _ _, fun h => absurd rfl h⟩

theorem scanPrivateName_offset (k : Cursor) : k.offset ≤ (scanPrivateName k).next.offset := by
  unfold scanPrivateName
  split
  · rename_i h
    exact (nameBody_offset h).1
  · exact Cursor.offset_le_skip _ _

/-! ## Numbers -/

/-- The token is a word or a punctuator. -/
def TokenKind.isMark : TokenKind → Bool
  | .word _ | .punct _ => true
  | _ => false

/-- What was read is neither a word nor a punctuator, and it does not end before the cursor. -/
structure Unmarked (k : Cursor) (s : Scan) : Prop where
  offset : k.offset ≤ s.next.offset
  kind : s.kind.isMark = false

namespace Unmarked

theorem of_le {k k' : Cursor} {s : Scan} (h : k.offset ≤ k'.offset) (hs : Unmarked k' s) :
    Unmarked k s := ⟨Nat.le_trans h hs.offset, hs.kind⟩

theorem of_skip (n : Nat) {k : Cursor} {s : Scan} (hs : Unmarked (k.skip n) s) : Unmarked k s :=
  of_le (Cursor.offset_le_skip n k) hs

theorem bad {k k' : Cursor} (h : k.offset ≤ k'.offset) : Unmarked k (.bad k') := ⟨h, rfl⟩

end Unmarked

theorem digitRun_offset {p : Char → Bool} {k next : Cursor} {ds : List Char}
    (h : digitRun p k = some (ds, next)) : k.offset ≤ next.offset := by
  simp only [digitRun] at h
  split at h
  · cases h
  · cases h
    exact Cursor.offset_le_span _ _

theorem unmarked_endNumber {kind : TokenKind} (hkind : kind.isMark = false) (k : Cursor) :
    Unmarked k (endNumber kind k) := by
  unfold endNumber
  split
  · split
    · exact .bad (Cursor.offset_le_span _ _)
    · exact ⟨Nat.le_refl _, hkind⟩
  · exact ⟨Nat.le_refl _, hkind⟩

theorem unmarked_scanRadix (bits exact : Nat) (p : Char → Bool) (k : Cursor) :
    Unmarked k (scanRadix bits exact p k) := by
  rw [scanRadix_eq]
  split
  · exact .bad (Cursor.offset_le_span _ _)
  · rename_i ds next h
    refine .of_le (digitRun_offset h) ?_
    split
    · exact .of_skip 1 (unmarked_endNumber rfl _)
    · exact unmarked_endNumber rfl _

theorem exponentPart_offset {k next : Cursor} {e : Int} (h : exponentPart k = some (e, next)) :
    k.offset ≤ next.offset := by
  rw [exponentPart_eq] at h
  obtain ⟨⟨ds, next'⟩, hrun, heq⟩ := Option.map_eq_some_iff.mp h
  cases heq
  refine Nat.le_trans ?_ (digitRun_offset hrun)
  split
  · exact Cursor.offset_le_skip _ _
  · exact Nat.le_refl _

theorem unmarked_finishDecimal (digits : Nat) (exponent : Int) (k : Cursor) :
    Unmarked k (finishDecimal digits exponent k) := by
  rw [finishDecimal_eq]
  split
  · refine .of_skip 1 ?_
    split
    · exact .bad (Cursor.offset_le_span _ _)
    · rename_i h
      exact .of_le (exponentPart_offset h) (unmarked_endNumber rfl _)
  · exact unmarked_endNumber rfl _

theorem unmarked_scanFraction (whole : List Char) (k : Cursor) :
    Unmarked k (scanFraction whole k) := by
  unfold scanFraction
  split
  · split
    · split
      · exact .bad (Cursor.offset_le_span _ _)
      · rename_i h
        exact .of_le (digitRun_offset h) (unmarked_finishDecimal _ _ _)
    · exact unmarked_finishDecimal _ _ _
  · exact unmarked_finishDecimal _ _ _

theorem unmarked_scanLeadingZero (k : Cursor) : Unmarked k (scanLeadingZero k) := by
  unfold scanLeadingZero
  refine .of_le (Cursor.offset_le_span Char.isDigit k) ?_
  dsimp only
  split
  · exact unmarked_endNumber rfl _
  · split
    · exact .of_skip 1 (unmarked_scanFraction _ _)
    · exact unmarked_finishDecimal _ _ _

theorem unmarked_scanZero (k : Cursor) : Unmarked k (scanZero k) := by
  unfold scanZero
  split
  · exact .of_skip 2 (unmarked_scanRadix _ _ _ _)
  split
  · exact .of_skip 2 (unmarked_scanRadix _ _ _ _)
  split
  · exact .of_skip 2 (unmarked_scanRadix _ _ _ _)
  split
  · exact unmarked_scanLeadingZero k
  split
  · exact .of_skip 2 (unmarked_scanFraction _ _)
  split
  · exact .of_skip 2 (unmarked_endNumber rfl _)
  · exact .of_skip 1 (unmarked_finishDecimal _ _ _)

theorem unmarked_scanDecimal (k : Cursor) : Unmarked k (scanDecimal k) := by
  unfold scanDecimal
  split
  · exact .bad (Cursor.offset_le_span _ _)
  · rename_i ds next h
    refine .of_le (digitRun_offset h) ?_
    split
    · exact .of_skip 1 (unmarked_scanFraction _ _)
    split
    · exact .of_skip 1 (unmarked_endNumber rfl _)
    · exact unmarked_finishDecimal _ _ _

theorem unmarked_scanNumber (k : Cursor) : Unmarked k (scanNumber k) := by
  rw [scanNumber_eq]
  split
  · exact unmarked_scanZero k
  · exact unmarked_scanDecimal k

/-! ## Literals and comments -/

/-- A piece that is found ends at the offset `o` or behind it. -/
def Ahead {α : Type} (stop : α → Cursor) (o : Nat) (found : Option α) : Prop :=
  ∀ a, found = some a → o ≤ (stop a).offset

/-- A piece found further on, with more before it. -/
theorem Ahead.map {α β : Type} {stop : α → Cursor} {stop' : β → Cursor} {o o' : Nat} {f : α → β}
    {found : Option α} (h : Ahead stop o' found) (ho : o ≤ o')
    (hstop : ∀ a, stop' (f a) = stop a) : Ahead stop' o (found.map f) := by
  intro b hb
  obtain ⟨a, ha, rfl⟩ := Option.map_eq_some_iff.mp hb
  exact hstop a ▸ Nat.le_trans ho (h a ha)

theorem stringBody_ahead (quote : Char) (cs : List Char) (o : Nat) :
    Ahead (·.2) o (stringBody quote cs o) := by
  fun_induction stringBody quote cs o with
  | case1 => exact nofun
  | case2 cs o ih => exact ih.map (by omega) fun _ => rfl
  | case3 c cs o _ ih => exact ih.map (by omega) fun _ => rfl
  | case4 c cs o =>
    rintro r ⟨rfl⟩
    exact Nat.le_succ o
  | case5 => exact nofun
  | case6 c cs o _ _ _ _ ih => exact ih.map (by omega) fun _ => rfl

theorem templateBody_ahead (cs : List Char) (o : Nat) :
    Ahead (·.2.2) o (templateBody cs o) := by
  fun_induction templateBody cs o with
  | case1 => exact nofun
  | case2 c cs o ih => exact ih.map (by omega) fun _ => rfl
  | case3 cs o =>
    rintro r ⟨rfl⟩
    exact Nat.le_add_right o 2
  | case4 c cs o =>
    rintro r ⟨rfl⟩
    exact Nat.le_succ o
  | case5 c cs o _ _ _ ih => exact ih.map (by omega) fun _ => rfl

theorem regexBody_ahead (inClass : Bool) (cs : List Char) (o : Nat) :
    Ahead (·.2) o (regexBody inClass cs o) := by
  fun_induction regexBody inClass cs o with
  | case1 => exact nofun
  | case2 => exact nofun
  | case3 inClass c cs o _ ih => exact ih.map (by omega) fun _ => rfl
  | case4 => exact nofun
  | case5 inClass c cs o =>
    rintro r ⟨rfl⟩
    exact Nat.le_succ o
  | case6 inClass c cs o _ _ _ _ ih => exact ih.map (by omega) fun _ => rfl

theorem blockCommentBody_ahead (cs : List Char) (o : Nat) :
    Ahead (·.2) o (blockCommentBody cs o) := by
  fun_induction blockCommentBody cs o with
  | case1 => exact nofun
  | case2 cs o =>
    rintro r ⟨rfl⟩
    exact Nat.le_add_right o 2
  | case3 c cs o _ ih => exact ih.map (by omega) fun _ => rfl

theorem unmarked_scanString (quote : Char) (k : Cursor) : Unmarked k (scanString quote k) := by
  unfold scanString
  split
  · exact .bad (Nat.le_refl _)
  · rename_i h
    exact ⟨stringBody_ahead _ _ _ _ h, rfl⟩

theorem unmarked_scanTemplatePiece (k : Cursor) : Unmarked k (scanTemplatePiece k) := by
  unfold scanTemplatePiece
  split
  · exact .bad (Nat.le_refl _)
  · rename_i h
    exact ⟨templateBody_ahead _ _ _ h, rfl⟩

theorem scanRegex_offset (k : Cursor) : k.offset ≤ (scanRegex k).next.offset := by
  refine Nat.le_trans (Cursor.offset_le_skip 1 k) ?_
  unfold scanRegex
  split
  · exact Cursor.offset_le_span _ _
  · rename_i h
    exact Nat.le_trans (regexBody_ahead _ _ _ _ h) (Cursor.offset_le_span _ _)

/-! ## Tokens -/

theorem punctuators_ne_nil : ∀ p ∈ punctuators, 0 < p.length := by decide

/-- A token does not end before its start, and a word or a punctuator ends behind it. -/
theorem scanToken_offset (k : Cursor) :
    k.offset ≤ (scanToken k).next.offset
    ∧ ((scanToken k).kind.isMark → k.offset < (scanToken k).next.offset) := by
  have hskip {s : Scan} (h : (k.skip 1).offset ≤ s.next.offset) : k.offset ≤ s.next.offset :=
    Nat.le_trans (Cursor.offset_le_skip 1 k) h
  unfold scanToken
  cases hk : k.rest with
  | nil => exact ⟨Nat.le_refl _, fun h => nomatch h⟩
  | cons c r =>
    have hlt {n : Nat} (hn : 0 < n) : k.offset < (k.skip n).offset :=
      Cursor.offset_lt_skip hn (by simp [hk])
    have hlater {s : Scan} (h : (k.skip 1).offset ≤ s.next.offset) :
        k.offset ≤ s.next.offset ∧ (s.kind.isMark → k.offset < s.next.offset) :=
      have hpast := Nat.lt_of_lt_of_le (hlt Nat.one_pos) h
      ⟨hpast.le, fun _ => hpast⟩
    dsimp only
    split
    · refine ⟨(scanName_offset k).1, fun h => (scanName_offset k).2 fun hend => ?_⟩
      rw [hend] at h
      exact nomatch h
    split
    · have hnumber := unmarked_scanNumber k
      exact ⟨hnumber.offset, fun h => absurd h (by simp [hnumber.kind])⟩
    split
    · exact hlater (unmarked_scanFraction _ _).offset
    split
    · exact hlater (unmarked_scanString _ _).offset
    split
    · exact hlater (unmarked_scanTemplatePiece _).offset
    split
    · exact hlater (scanPrivateName_offset _)
    split
    · rename_i p hp
      have hpast : k.offset < (k.skip p.length).offset :=
        hlt (punctuators_ne_nil p (List.mem_of_find?_eq_some hp))
      exact ⟨hpast.le, fun _ => hpast⟩
    · exact hlater (Nat.le_refl _)

theorem skipGap_offset (fuel : Nat) (k : Cursor) (t : Trivia) (newline : Bool) :
    k.offset ≤ (skipGap fuel k t newline).next.offset := by
  fun_induction skipGap fuel k t newline with
  | case1 | case2 | case9 => exact Nat.le_refl _
  | case3 fuel k t newline tail _ taken next hspan ih =>
    have hnext : (k.span fun c => !isLineEnd c).2 = next := by rw [hspan]
    exact Nat.le_trans (hnext ▸ Cursor.offset_le_span _ k) ih
  | case4 => exact Cursor.offset_le_skip _ _
  | case5 fuel k t newline tail _ body next hbody _ _ _ ih =>
    exact Nat.le_trans (Cursor.offset_le_skip 2 k)
      (Nat.le_trans (blockCommentBody_ahead _ _ _ hbody) ih)
  | case6 | case7 =>
    rename_i ih
    exact Nat.le_trans (Cursor.offset_le_skip 1 _) ih
  | case8 =>
    rename_i ih
    exact Nat.le_trans (Cursor.offset_le_span _ _) ih

/-- The next token does not start before the text. -/
theorem nextToken_start (k : Cursor) (trivia : Trivia) :
    k.offset ≤ (nextToken k trivia).token.start :=
  skipGap_offset _ _ _ _

/-- What follows the next token does not start before it, and behind a word or a punctuator it
starts behind it. -/
theorem nextToken_next (k : Cursor) (trivia : Trivia) :
    (nextToken k trivia).token.start ≤ (nextToken k trivia).next.offset
    ∧ ((nextToken k trivia).token.kind.isMark →
      (nextToken k trivia).token.start < (nextToken k trivia).next.offset) :=
  scanToken_offset _

end Reactive.Script
