/-
  Tokens end with their line.

  Names, numbers and punctuators never go on behind the end of a line, so what stands there does
  not matter to them: two texts that share a line are read alike up to its end. A string, a piece
  of a template and a regular expression are read up to a mark that closes them, and depend on
  nothing behind that mark; if they stay on their line, this comes to the same.
-/
import Reactive.Proofs.Script.Opening
import Reactive.Proofs.Text.Lines
import Mathlib.Data.List.Basic
import Mathlib.Data.List.Find

namespace Reactive.Script

open Reactive.Text

/-! ## Cursors on a line -/

theorem Cursor.rest_skip (n : Nat) (k : Cursor) : (k.skip n).rest = k.rest.drop n := by
  induction n generalizing k with
  | zero => rfl
  | succ n ih =>
    obtain ⟨cs, o⟩ := k
    cases cs with
    | nil => rw [skip, ih]; simp
    | cons c cs => rw [skip, ih]; rfl

/-- This character stands at the cursor. -/
def Cursor.sees (k : Cursor) (c : Char) : Bool := k.rest.head? == some c

/-- Two cursors before the same rest of a line; `r` and `r'` stand behind the line. -/
def Beside (r r' : List Char) (k k' : Cursor) : Prop :=
  ∃ l, OneLine l ∧ k.rest = l ++ r ∧ k'.rest = l ++ r'

/-- A sound token is read alike: the same from both cursors, and both are still on their line. -/
def Alike (r r' : List Char) (s s' : Scan) : Prop :=
  s.flawed = false → s'.kind = s.kind ∧ s'.escaped = s.escaped ∧ s'.flawed = false
    ∧ Beside r r' s.next s'.next

section

variable {r r' : List Char} {k k' : Cursor}

theorem Alike.ok (kind : TokenKind) (h : Beside r r' k k') :
    Alike r r' (.ok kind k) (.ok kind k') := fun _ => ⟨rfl, rfl, rfl, h⟩

theorem Alike.bad (k : Cursor) (s : Scan) : Alike r r' (.bad k) s := nofun

/-- The cursors are before the same character, or at the end of their lines. -/
theorem Beside.cons_or_break (h : Beside r r' k k') :
    (∃ c l, OneLine (c :: l) ∧ k.rest = c :: (l ++ r) ∧ k'.rest = c :: (l ++ r'))
    ∨ (k.rest = r ∧ k'.rest = r') := by
  obtain ⟨l, hl, hk, hk'⟩ := h
  cases l with
  | nil => exact .inr ⟨hk, hk'⟩
  | cons c l => exact .inl ⟨c, l, hl, hk, hk'⟩

theorem Beside.skip {x l : List Char} (hl : OneLine l) (hk : k.rest = x ++ (l ++ r))
    (hk' : k'.rest = x ++ (l ++ r')) : Beside r r' (k.skip x.length) (k'.skip x.length) :=
  ⟨l, hl, by rw [Cursor.rest_skip, hk, List.drop_left], by
    rw [Cursor.rest_skip, hk', List.drop_left]⟩

theorem Beside.peek_any {p : Char → Bool} (hp : p '\n' = false ∧ p '\r' = false) (hr : Break r)
    (hr' : Break r') (h : Beside r r' k k') : k'.peek.any p = k.peek.any p := by
  rcases h.cons_or_break with ⟨d, l, -, hk, hk'⟩ | ⟨hk, hk'⟩
  · rw [Cursor.peek, Cursor.peek, hk, hk', List.head?_cons, List.head?_cons]
  · have hnone : ∀ {x : Cursor}, Break x.rest → x.peek.any p = false := by
      intro x hx
      rcases hx.eq_nil_or with hx | ⟨t, hx⟩ | ⟨t, hx⟩ <;> simp [Cursor.peek, hx, hp]
    rw [hnone (hk' ▸ hr'), hnone (hk ▸ hr)]

/-- The cursors see the same characters, the ends of lines aside. -/
theorem Beside.sees (hr : Break r) (hr' : Break r') (h : Beside r r' k k') {c : Char}
    (hc : c ≠ '\n' ∧ c ≠ '\r') : k'.sees c = k.sees c := by
  have hsees : ∀ x : Cursor, x.sees c = x.peek.any (· == c) := by
    rintro ⟨_ | ⟨d, t⟩, o⟩ <;> simp [Cursor.sees, Cursor.peek]
  rw [hsees, hsees]
  exact h.peek_any (p := (· == c)) (by simp [Ne.symm hc.1, Ne.symm hc.2]) hr hr'

/-- The cursors behind a character that both see. -/
theorem Beside.next (hr : Break r) (h : Beside r r' k k') {c : Char} (hc : c ≠ '\n' ∧ c ≠ '\r')
    (hsees : k.sees c = true) : Beside r r' (k.skip 1) (k'.skip 1) := by
  rcases h.cons_or_break with ⟨d, l, hl, hk, hk'⟩ | ⟨hk, -⟩
  · exact .skip (x := [d]) (fun x hx => hl x (List.mem_cons_of_mem _ hx)) hk hk'
  · rw [Cursor.sees, beq_iff_eq, hk] at hsees
    rcases hr c hsees with rfl | rfl
    · exact absurd rfl hc.1
    · exact absurd rfl hc.2

/-- A run of characters ends with the line. -/
theorem Beside.span {p : Char → Bool} (hp : p '\n' = false ∧ p '\r' = false) (hr : Break r)
    (hr' : Break r') (h : Beside r r' k k') :
    (k'.span p).1 = (k.span p).1 ∧ Beside r r' (k.span p).2 (k'.span p).2 := by
  obtain ⟨l, hl, hk, hk'⟩ := h
  have hrun : ∀ {x}, Break x → (l ++ x).takeWhile p = l.takeWhile p
      ∧ (l ++ x).dropWhile p = l.dropWhile p ++ x := by
    intro x hx
    obtain ⟨htake, hdrop⟩ := hx.takeWhile hp
    constructor
    · rw [List.takeWhile_append, htake, List.append_nil]
      split
      · rename_i hall
        exact ((List.takeWhile_prefix p).eq_of_length hall).symm
      · rfl
    · rw [List.dropWhile_append, hdrop]
      split
      · rename_i hempty
        rw [List.isEmpty_iff.mp hempty, List.nil_append]
      · rfl
  refine ⟨?_, l.dropWhile p, fun c hc => hl c ((List.dropWhile_suffix p).mem hc), ?_, ?_⟩
  · rw [Cursor.fst_span, Cursor.fst_span, hk, hk', (hrun hr).1, (hrun hr').1]
  · rw [Cursor.rest_span, hk, (hrun hr).2]
  · rw [Cursor.rest_span, hk', (hrun hr').2]

end

/-! ## Names -/

theorem oneLine_of_hexValue? {cs : List Char} (h : ∀ c ∈ cs, (hexValue? c).isSome = true) :
    OneLine cs := by
  intro c hc
  have hvalue := h c hc
  constructor <;>
  · rintro rfl
    exact absurd hvalue (by decide)

/-- All characters of a hexadecimal number are digits. -/
theorem hexValue?_of_hexNumber? {cs : List Char} {n : Nat} (h : hexNumber? cs = some n) :
    ∀ c ∈ cs, (hexValue? c).isSome = true := by
  rw [hexNumber?] at h
  generalize (some 0 : Option Nat) = acc at h
  induction cs generalizing acc with
  | nil =>
    intro c hc
    cases hc
  | cons c cs ih =>
    rw [List.foldl_cons] at h
    rw [List.forall_mem_cons]
    refine ⟨?_, ih _ h⟩
    cases hc : hexValue? c with
    | some d => rfl
    | none =>
      -- behind what is no digit there is no number, whatever follows
      rw [hc] at h
      cases acc <;>
      · rw [List.foldl_fixed' fun _ => rfl] at h
        cases h

theorem unicodeEscape_braced {digits : List Char}
    (hdigits : ∀ c ∈ digits, (hexValue? c).isSome = true) (tail : List Char) :
    unicodeEscape ('\x7b' :: (digits ++ '\x7d' :: tail))
      = if digits.isEmpty then none
        else match hexNumber? digits with
          | some n => if n ≤ 0x10FFFF then some (n, tail) else none
          | none => none := by
  have hbrace : (hexValue? '\x7d').isSome = false := by decide
  have htake : (digits ++ '\x7d' :: tail).takeWhile _ = _ := List.takeWhile_append_of_pos hdigits
  have hdrop : (digits ++ '\x7d' :: tail).dropWhile _ = _ := List.dropWhile_append_of_pos hdigits
  rw [List.takeWhile_cons_of_neg (by simp [hbrace]), List.append_nil] at htake
  rw [List.dropWhile_cons_of_neg (by simp [hbrace])] at hdrop
  simp only [unicodeEscape]
  rw [hdrop, htake]
  rfl

/-- An escape by number does not depend on what stands behind it. -/
theorem unicodeEscape_eq_some {cs tail : List Char} {n : Nat}
    (h : unicodeEscape cs = some (n, tail)) :
    ∃ x, OneLine x ∧ cs = x ++ tail ∧ ∀ tail', unicodeEscape (x ++ tail') = some (n, tail') := by
  have hcs := h
  unfold unicodeEscape at h
  split at h
  · rename_i more
    dsimp only at h
    split at h
    · rename_i tail₀ hdrop
      obtain ⟨digits, hdigits, rfl⟩ : ∃ digits, (∀ c ∈ digits, (hexValue? c).isSome = true)
          ∧ more = digits ++ '\x7d' :: tail₀ :=
        ⟨_, fun c hc => List.all_eq_true.mp List.all_takeWhile c hc,
          by rw [← hdrop, List.takeWhile_append_dropWhile]⟩
      obtain ⟨m, hnumber, hm⟩ : ∃ m, hexNumber? digits = some m
          ∧ (if digits.isEmpty then none
            else if m ≤ 0x10FFFF then some (m, tail₀) else none) = some (n, tail) := by
        rw [unicodeEscape_braced hdigits] at hcs
        cases hnumber : hexNumber? digits with
        | none => rw [hnumber] at hcs; split at hcs <;> cases hcs
        | some m => rw [hnumber] at hcs; exact ⟨m, rfl, hcs⟩
      have hempty : digits.isEmpty = false := by
        cases hd : digits.isEmpty with
        | false => rfl
        | true => rw [hd] at hm; cases hm
      rw [hempty] at hm
      obtain ⟨hle, hm⟩ := Option.ite_none_right_eq_some.mp hm
      cases hm
      refine ⟨'\x7b' :: (digits ++ ['\x7d']), by simpa using oneLine_of_hexValue? hdigits, by simp,
        fun tail' => ?_⟩
      rw [List.cons_append, List.append_assoc, List.singleton_append,
        unicodeEscape_braced hdigits, hempty, hnumber]
      exact if_pos hle
    · cases h
  · rename_i a b c d tail₀ hbrace
    split at h
    · rename_i n₀ hnumber
      cases h
      refine ⟨[a, b, c, d], oneLine_of_hexValue? (hexValue?_of_hexNumber? hnumber), rfl,
        fun tail' => ?_⟩
      unfold unicodeEscape
      split
      · rename_i heq
        exact absurd (List.cons.inj heq).1 hbrace
      · rename_i heq
        cases heq
        rw [hnumber]
        rfl
      · rename_i hfour
        exact absurd rfl (hfour _ _ _ _ _)
    · cases h
  · cases h

section

variable {r r' : List Char} {k k' : Cursor}

/-- No name goes on at the end of a line. -/
theorem nameBody_break (h : Break k.rest) (fuel : Nat) (first : Bool) :
    nameBody fuel first k = some ([], k, false) := by
  cases fuel with
  | zero => rfl
  | succ fuel =>
    have hfeed : (if first then isNameStart '\n' else isNamePart '\n') = false := by
      cases first <;> decide
    have hreturn : (if first then isNameStart '\r' else isNamePart '\r') = false := by
      cases first <;> decide
    rcases h.eq_nil_or with hk | ⟨t, hk⟩ | ⟨t, hk⟩ <;> simp [nameBody, hk, hfeed, hreturn]

/-- A backslash in a name starts an escape by number. -/
theorem nameBody_backslash {fuel : Nat} {first : Bool} {cs : List Char} (hk : k.rest = '\\' :: cs)
    {name : List Char} {next : Cursor} {escaped : Bool}
    (h : nameBody (fuel + 1) first k = some (name, next, escaped)) :
    ∃ x tail n more e, cs = 'u' :: (x ++ tail) ∧ OneLine x
      ∧ nameBody fuel false (k.skip (x.length + 2)) = some (more, next, e)
      ∧ name = Char.ofNat n :: more ∧ escaped = true
      ∧ ∀ (fuel' : Nat) (k' : Cursor) tail' more' next' e', k'.rest = '\\' :: 'u' :: (x ++ tail') →
        nameBody fuel' false (k'.skip (x.length + 2)) = some (more', next', e') →
        nameBody (fuel' + 1) first k' = some (Char.ofNat n :: more', next', true) := by
  unfold nameBody at h
  rw [hk] at h
  dsimp only at h
  split at h
  · rename_i cs heq
    cases heq
    split at h
    · cases h
    · rename_i n tail hescape
      obtain ⟨x, hx, rfl, hagain⟩ := unicodeEscape_eq_some hescape
      have hused : ∀ t : List Char, (x ++ t).length - t.length + 2 = x.length + 2 := by simp
      rw [hused] at h
      by_cases hallowed : (decide n.isValidChar && if first = true then isNameStart (Char.ofNat n)
          else isNamePart (Char.ofNat n)) = true
      · rw [if_pos hallowed] at h
        split at h
        · cases h
        · rename_i more next₀ e hmore
          cases h
          refine ⟨x, tail, n, more, e, rfl, hx, hmore, rfl, rfl, ?_⟩
          intro fuel' k' tail' more' next' e' hk' hmore'
          unfold nameBody
          rw [hk']
          simp only [hagain, hused, hallowed, hmore', if_true]
      · rw [if_neg hallowed] at h
        cases h
  · cases h
  · rename_i hslash heq
    exact absurd (List.cons.inj heq).1.symm hslash
  · rename_i heq
    cases heq

/-- The character can stand here in a name. -/
def isNameChar (first : Bool) (c : Char) : Bool := if first then isNameStart c else isNamePart c

/-- A run that stops before another character has taken one. -/
theorem length_span_lt {p : Char → Bool} {c : Char} {cs : List Char} (hk : k.rest = c :: cs)
    {d : Char} (hd : d ≠ c) (h : (k.span p).2.sees d = true) :
    (k.span p).2.rest.length < k.rest.length := by
  rw [Cursor.sees, beq_iff_eq] at h
  rw [Cursor.rest_span] at h ⊢
  refine Nat.lt_of_le_of_ne (List.dropWhile_suffix p).length_le fun hlength => hd ?_
  rw [(List.dropWhile_suffix p).eq_of_length hlength, hk] at h
  exact (Option.some.inj h).symm

/-- Another character starts a run of name parts, or ends the name. -/
theorem nameBody_plain {c : Char} {cs : List Char} (hk : k.rest = c :: cs) (hc : c ≠ '\\')
    (fuel : Nat) (first : Bool) :
    nameBody (fuel + 1) first k
      = if isNameChar first c then
          if (k.span isNamePart).2.sees '\\' then
            (nameBody fuel false (k.span isNamePart).2).map fun more =>
              ((k.span isNamePart).1 ++ more.1, more.2.1, true)
          else some ((k.span isNamePart).1, (k.span isNamePart).2, false)
        else some ([], k, false) := by
  rw [nameBody, hk]
  dsimp only
  split
  · rename_i heq
    exact absurd (List.cons.inj heq).1 hc
  · rename_i heq
    exact absurd (List.cons.inj heq).1 hc
  · rename_i heq
    cases heq
    show (if isNameChar first c then _ else _) = _
    congr 1
    split
    · rename_i heq
      have hsees : (k.span isNamePart).2.sees '\\' = true := by rw [Cursor.sees, heq]; rfl
      rw [if_pos hsees]
      cases nameBody fuel false (k.span isNamePart).2 <;> rfl
    · rename_i hslash
      rw [if_neg]
      intro hsees
      obtain ⟨t, ht⟩ := List.head?_eq_some_iff.mp (beq_iff_eq.mp hsees)
      exact hslash t ht
  · rename_i heq
    cases heq

/-- A name is read alike. -/
theorem nameBody_beside (hr : Break r) (hr' : Break r') {fuel fuel' : Nat} {first : Bool}
    (h : Beside r r' k k') (hf : k.rest.length < fuel) (hf' : k'.rest.length < fuel')
    {cs : List Char} {next : Cursor} {escaped : Bool}
    (hbody : nameBody fuel first k = some (cs, next, escaped)) :
    ∃ next', nameBody fuel' first k' = some (cs, next', escaped) ∧ Beside r r' next next' := by
  induction fuel generalizing fuel' first k k' cs next escaped with
  | zero => omega
  | succ fuel ih =>
    obtain ⟨fuel', rfl⟩ := Nat.exists_eq_succ_of_ne_zero (n := fuel') (by omega)
    rcases h.cons_or_break with ⟨c, l, hl, hk, hk'⟩ | ⟨hk, hk'⟩
    · by_cases hc : c = '\\'
      · subst hc
        obtain ⟨x, tail, n, more, e, hcs, hx, hmore, rfl, rfl, hagain⟩ :=
          nameBody_backslash hk hbody
        have hu : OneLine ('u' :: x) := by simp [hx]
        obtain ⟨y, rfl, rfl⟩ := OneLine.append_eq hu hr hcs.symm
        have hy : OneLine y := fun c hc => hl c (by simp [hc])
        have hskip := Beside.skip (x := '\\' :: 'u' :: x) hy (by simpa using hk)
          (by simpa using hk')
        rw [hk, List.length_cons] at hf
        rw [hk', List.length_cons] at hf'
        have hshort : (k.skip (x.length + 2)).rest.length < fuel := by
          rw [Cursor.rest_skip, hk, List.length_drop, List.length_cons]
          omega
        have hshort' : (k'.skip (x.length + 2)).rest.length < fuel' := by
          rw [Cursor.rest_skip, hk', List.length_drop, List.length_cons]
          omega
        obtain ⟨next', hmore', hnext⟩ := ih hskip hshort hshort' hmore
        exact ⟨next', hagain fuel' k' (y ++ r') more next' e (by simpa using hk') hmore', hnext⟩
      · rw [nameBody_plain hk hc] at hbody
        rw [nameBody_plain hk' hc]
        split at hbody
        · rename_i hallowed
          rw [if_pos hallowed]
          have hparts : isNamePart '\n' = false ∧ isNamePart '\r' = false := by decide
          obtain ⟨hrun, hspan⟩ := h.span hparts hr hr'
          rw [hrun, hspan.sees hr hr' (c := '\\') (by decide)]
          split at hbody
          · rename_i hslash
            rw [if_pos hslash]
            obtain ⟨more, hmore, heq⟩ := Option.map_eq_some_iff.mp hbody
            cases heq
            have hlength := length_span_lt hk (Ne.symm hc) hslash
            have hlength' := length_span_lt hk' (Ne.symm hc)
              ((hspan.sees hr hr' (by decide)).trans hslash)
            have hshort' : (k'.span isNamePart).2.rest.length < fuel' := by omega
            obtain ⟨next', hmore', hnext⟩ := ih hspan (by omega) hshort' hmore
            rw [hmore']
            exact ⟨next', rfl, hnext⟩
          · rename_i hslash
            rw [if_neg hslash]
            cases hbody
            exact ⟨_, rfl, hspan⟩
        · rename_i hallowed
          rw [if_neg hallowed]
          cases hbody
          exact ⟨k', rfl, h⟩
    · rw [nameBody_break (hk ▸ hr)] at hbody
      cases hbody
      exact ⟨k', nameBody_break (hk' ▸ hr') _ _, h⟩

/-- A token made of a name is read alike. -/
theorem name_alike (kind : String → TokenKind) (hr : Break r) (hr' : Break r')
    (h : Beside r r' k k') :
    Alike r r'
      (match nameBody (k.rest.length + 1) true k with
        | some (c :: cs, next, escaped) => ⟨kind (String.ofList (c :: cs)), next, escaped, false⟩
        | _ => .bad (k.skip 1))
      (match nameBody (k'.rest.length + 1) true k' with
        | some (c :: cs, next, escaped) => ⟨kind (String.ofList (c :: cs)), next, escaped, false⟩
        | _ => .bad (k'.skip 1)) := by
  split
  · rename_i c cs next escaped hbody
    obtain ⟨next', hbody', hnext⟩ := nameBody_beside hr hr' h (Nat.lt_succ_self _)
      (Nat.lt_succ_self _) hbody
    rw [hbody']
    exact fun _ => ⟨rfl, rfl, rfl, hnext⟩
  · exact .bad _ _

theorem scanName_alike (hr : Break r) (hr' : Break r') (h : Beside r r' k k') :
    Alike r r' (scanName k) (scanName k') := name_alike .word hr hr' h

theorem scanPrivateName_alike (hr : Break r) (hr' : Break r') (h : Beside r r' k k') :
    Alike r r' (scanPrivateName k) (scanPrivateName k') := name_alike .privateName hr hr' h

/-! ## Numbers -/

theorem digitRun_beside {p : Char → Bool} (hp : p '\n' = false ∧ p '\r' = false) (hr : Break r)
    (hr' : Break r') (h : Beside r r' k k') {ds : List Char} {next : Cursor}
    (hrun : digitRun p k = some (ds, next)) :
    ∃ next', digitRun p k' = some (ds, next') ∧ Beside r r' next next' := by
  obtain ⟨heq, hnext⟩ := h.span (p := fun c => p c || c == '_') (by simp [hp]) hr hr'
  unfold digitRun at hrun ⊢
  dsimp only at hrun ⊢
  rw [heq]
  split at hrun
  · cases hrun
  · rename_i hsound
    cases hrun
    exact ⟨_, if_neg hsound, hnext⟩

theorem endNumber_alike (hr : Break r) (hr' : Break r') (kind : TokenKind)
    (h : Beside r r' k k') : Alike r r' (endNumber kind k) (endNumber kind k') := by
  rcases h.cons_or_break with ⟨c, l, hl, hk, hk'⟩ | ⟨hk, hk'⟩
  · simp only [endNumber, Cursor.peek, hk, hk', List.head?_cons]
    split
    · exact .bad _ _
    · exact .ok kind h
  · have hend : ∀ {x : Cursor}, Break x.rest → endNumber kind x = .ok kind x := by
      intro x hx
      have hfeed : ('\n'.isDigit || isNameStart '\n') = false := by decide
      have hreturn : ('\r'.isDigit || isNameStart '\r') = false := by decide
      rcases hx.eq_nil_or with hx | ⟨t, hx⟩ | ⟨t, hx⟩ <;>
        simp only [endNumber, Cursor.peek, hx, List.head?_nil, List.head?_cons, hfeed, hreturn]
      · rfl
      · rfl
    rw [hend (hk ▸ hr), hend (hk' ▸ hr')]
    exact .ok kind h

theorem scanRadix_eq (bits exact : Nat) (p : Char → Bool) (k : Cursor) :
    scanRadix bits exact p k = match digitRun p k with
      | none => .bad (k.span isNamePart).2
      | some (ds, next) =>
        if next.sees 'n' then
          endNumber (.bigint ((ds.map fun c => (hexValue? c).getD 0).foldl
            (fun acc d => acc * Nat.pow 2 bits + d) 0)) (next.skip 1)
        else endNumber (.number (Number.ofBits bits exact
          (ds.map fun c => (hexValue? c).getD 0))) next := by
  unfold scanRadix
  cases digitRun p k with
  | none => rfl
  | some x =>
    obtain ⟨ds, next⟩ := x
    dsimp only
    split <;> simp_all [Cursor.sees, List.head?_eq_some_iff]

theorem exponentPart_eq (k : Cursor) :
    exponentPart k
      = (digitRun Char.isDigit (if k.sees '+' || k.sees '-' then k.skip 1 else k)).map fun x =>
          (if k.sees '-' then -(decimalValue x.1 : Int) else decimalValue x.1, x.2) := by
  unfold exponentPart
  cases hk : k.rest with
  | nil => cases hrun : digitRun Char.isDigit k <;> simp [hrun, Cursor.sees, hk]
  | cons c t =>
    by_cases hplus : c = '+'
    · subst hplus
      cases hrun : digitRun Char.isDigit (k.skip 1) <;> simp [hrun, Cursor.sees, hk]
    · by_cases hminus : c = '-'
      · subst hminus
        cases hrun : digitRun Char.isDigit (k.skip 1) <;> simp [hrun, Cursor.sees, hk]
      · cases hrun : digitRun Char.isDigit k <;> simp [hrun, hplus, hminus, Cursor.sees, hk]

theorem finishDecimal_eq (digits : Nat) (exponent : Int) (k : Cursor) :
    finishDecimal digits exponent k
      = if k.sees 'e' || k.sees 'E' then
          match exponentPart (k.skip 1) with
          | none => .bad ((k.skip 1).span isNamePart).2
          | some (e, next) => endNumber (.number (Number.ofDecimal digits (exponent + e))) next
        else endNumber (.number (Number.ofDecimal digits exponent)) k := by
  unfold finishDecimal Cursor.sees
  rcases k with ⟨_ | ⟨c, cs⟩, offset⟩
  · rfl
  · by_cases hlower : c = 'e'
    · subst hlower
      rfl
    · by_cases hupper : c = 'E'
      · subst hupper
        rfl
      · simp [hlower, hupper]

theorem scanRadix_alike {bits exact : Nat} {p : Char → Bool} (hp : p '\n' = false ∧ p '\r' = false)
    (hr : Break r) (hr' : Break r') (h : Beside r r' k k') :
    Alike r r' (scanRadix bits exact p k) (scanRadix bits exact p k') := by
  rw [scanRadix_eq, scanRadix_eq]
  split
  · exact .bad _ _
  · rename_i ds next hrun
    obtain ⟨next', hrun', hnext⟩ := digitRun_beside hp hr hr' h hrun
    rw [hrun']
    dsimp only
    rw [hnext.sees hr hr' (c := 'n') (by decide)]
    split
    · rename_i hn
      exact endNumber_alike hr hr' _ (hnext.next hr (by decide) hn)
    · exact endNumber_alike hr hr' _ hnext

theorem exponentPart_beside (hr : Break r) (hr' : Break r') (h : Beside r r' k k') {e : Int}
    {next : Cursor} (hpart : exponentPart k = some (e, next)) :
    ∃ next', exponentPart k' = some (e, next') ∧ Beside r r' next next' := by
  rw [exponentPart_eq] at hpart ⊢
  have hplus := h.sees hr hr' (c := '+') (by decide)
  have hminus := h.sees hr hr' (c := '-') (by decide)
  have hsigned : Beside r r'
      (if k.sees '+' || k.sees '-' then k.skip 1 else k)
      (if k'.sees '+' || k'.sees '-' then k'.skip 1 else k') := by
    rw [hplus, hminus]
    split
    · rename_i hsign
      rcases Bool.or_eq_true_iff.mp hsign with hsign | hsign <;> exact h.next hr (by decide) hsign
    · exact h
  obtain ⟨x, hrun, hx⟩ := Option.map_eq_some_iff.mp hpart
  obtain ⟨next', hrun', hnext⟩ := digitRun_beside (by decide) hr hr' hsigned hrun
  cases hx
  exact ⟨next', by rw [hrun', Option.map_some, hminus], hnext⟩

theorem finishDecimal_alike (hr : Break r) (hr' : Break r') (digits : Nat) (exponent : Int)
    (h : Beside r r' k k') :
    Alike r r' (finishDecimal digits exponent k) (finishDecimal digits exponent k') := by
  rw [finishDecimal_eq, finishDecimal_eq, h.sees hr hr' (c := 'e') (by decide),
    h.sees hr hr' (c := 'E') (by decide)]
  split
  · rename_i hmark
    have hskip : Beside r r' (k.skip 1) (k'.skip 1) := by
      rcases Bool.or_eq_true_iff.mp hmark with hmark | hmark <;> exact h.next hr (by decide) hmark
    split
    · exact .bad _ _
    · rename_i e next hpart
      obtain ⟨next', hpart', hnext⟩ := exponentPart_beside hr hr' hskip hpart
      rw [hpart']
      exact endNumber_alike hr hr' _ hnext
  · exact endNumber_alike hr hr' _ h

theorem scanFraction_alike (hr : Break r) (hr' : Break r') (whole : List Char)
    (h : Beside r r' k k') : Alike r r' (scanFraction whole k) (scanFraction whole k') := by
  have hplain : ∀ {x : Cursor}, Break x.rest →
      scanFraction whole x = finishDecimal (decimalValue whole) 0 x := by
    intro x hx
    rcases hx.eq_nil_or with hx | ⟨t, hx⟩ | ⟨t, hx⟩ <;> simp [scanFraction, Cursor.peek, hx]
  rcases h.cons_or_break with ⟨c, l, hl, hk, hk'⟩ | ⟨hk, hk'⟩
  · simp only [scanFraction, Cursor.peek, hk, hk', List.head?_cons]
    split
    · split
      · exact .bad _ _
      · rename_i ds next hrun
        obtain ⟨next', hrun', hnext⟩ := digitRun_beside (by decide) hr hr' h hrun
        rw [hrun']
        exact finishDecimal_alike hr hr' _ _ hnext
    · exact finishDecimal_alike hr hr' _ _ h
  · rw [hplain (hk ▸ hr), hplain (hk' ▸ hr')]
    exact finishDecimal_alike hr hr' _ _ h

theorem scanLeadingZero_alike (hr : Break r) (hr' : Break r') (h : Beside r r' k k') :
    Alike r r' (scanLeadingZero k) (scanLeadingZero k') := by
  have heq : ∀ x : Cursor, scanLeadingZero x
      = if (x.span Char.isDigit).1.all isOctal then
          endNumber (.number (Number.ofBits 3 21
            ((x.span Char.isDigit).1.map fun c => (hexValue? c).getD 0))) (x.span Char.isDigit).2
        else if (x.span Char.isDigit).2.sees '.' then
          scanFraction (x.span Char.isDigit).1 ((x.span Char.isDigit).2.skip 1)
        else finishDecimal (decimalValue (x.span Char.isDigit).1) 0 (x.span Char.isDigit).2 := by
    intro x
    unfold scanLeadingZero
    dsimp only
    congr 1
    split <;> simp_all [Cursor.sees, List.head?_eq_some_iff]
  obtain ⟨hrun, hnext⟩ := h.span (p := Char.isDigit) (by decide) hr hr'
  have hdot := hnext.sees hr hr' (c := '.') (by decide)
  rw [heq, heq, hrun, hdot]
  split
  · exact endNumber_alike hr hr' _ hnext
  · split
    · rename_i hpoint
      exact scanFraction_alike hr hr' _ (hnext.next hr (by decide) hpoint)
    · exact finishDecimal_alike hr hr' _ _ hnext

/-- A number that starts with no zero. -/
def scanDecimal (k : Cursor) : Scan :=
  match digitRun Char.isDigit k with
  | none => .bad (k.span isNamePart).2
  | some (ds, next) =>
    if next.sees '.' then scanFraction ds (next.skip 1)
    else if next.sees 'n' then endNumber (.bigint (decimalValue ds)) (next.skip 1)
    else finishDecimal (decimalValue ds) 0 next

/-- A number that starts with a zero, by the character behind it. -/
def scanZero (k : Cursor) : Scan :=
  if (k.skip 1).sees 'x' || (k.skip 1).sees 'X' then
    scanRadix 4 16 (fun c => (hexValue? c).isSome) (k.skip 2)
  else if (k.skip 1).sees 'o' || (k.skip 1).sees 'O' then scanRadix 3 21 isOctal (k.skip 2)
  else if (k.skip 1).sees 'b' || (k.skip 1).sees 'B' then
    scanRadix 1 64 (fun c => c == '0' || c == '1') (k.skip 2)
  else if (k.skip 1).peek.any Char.isDigit then scanLeadingZero k
  else if (k.skip 1).sees '.' then scanFraction ['0'] (k.skip 2)
  else if (k.skip 1).sees 'n' then endNumber (.bigint 0) (k.skip 2)
  else finishDecimal 0 0 (k.skip 1)

theorem scanNumber_eq (k : Cursor) :
    scanNumber k = if k.sees '0' then scanZero k else scanDecimal k := by
  unfold scanNumber
  split
  iterate 6
    · rename_i hk
      simp [scanZero, Cursor.sees, Cursor.rest_skip, hk]
  · rename_i c t _ _ _ _ _ _ hk
    have hzero : k.sees '0' = true := by simp [Cursor.sees, hk]
    rw [if_pos hzero]
    split
    · simp_all [scanZero, Cursor.sees, Cursor.rest_skip, Cursor.peek]
    · split <;> simp_all [scanZero, Cursor.sees, Cursor.rest_skip, Cursor.peek]
  · rename_i hlone
    by_cases hzero : k.sees '0' = true
    · rw [if_pos hzero]
      obtain ⟨rest, o⟩ := k
      obtain ⟨t, rfl⟩ := List.head?_eq_some_iff.mp (beq_iff_eq.mp hzero)
      cases t with
      | nil => rfl
      | cons c t => exact absurd rfl (hlone c t)
    · rw [if_neg hzero]
      unfold scanDecimal
      cases hrun : digitRun Char.isDigit k with
      | none => rfl
      | some x =>
        dsimp only
        split <;> simp_all [Cursor.sees, List.head?_eq_some_iff]

theorem scanDecimal_alike (hr : Break r) (hr' : Break r') (h : Beside r r' k k') :
    Alike r r' (scanDecimal k) (scanDecimal k') := by
  unfold scanDecimal
  split
  · exact .bad _ _
  · rename_i ds next hrun
    obtain ⟨next', hrun', hnext⟩ := digitRun_beside (by decide) hr hr' h hrun
    rw [hrun']
    dsimp only
    rw [hnext.sees hr hr' (c := '.') (by decide), hnext.sees hr hr' (c := 'n') (by decide)]
    split
    · rename_i hpoint
      exact scanFraction_alike hr hr' _ (hnext.next hr (by decide) hpoint)
    · split
      · rename_i hn
        exact endNumber_alike hr hr' _ (hnext.next hr (by decide) hn)
      · exact finishDecimal_alike hr hr' _ _ hnext

theorem scanZero_alike (hr : Break r) (hr' : Break r') (h : Beside r r' k k')
    (hzero : k.sees '0' = true) : Alike r r' (scanZero k) (scanZero k') := by
  have hone := h.next hr (by decide) hzero
  have htwo (x : Cursor) : x.skip 2 = (x.skip 1).skip 1 := by
    obtain ⟨rest, o⟩ := x
    cases rest <;> rfl
  have hmark {c : Char} (hc : c ≠ '\n' ∧ c ≠ '\r') (hsees : (k.skip 1).sees c = true) :
      Beside r r' (k.skip 2) (k'.skip 2) := by
    rw [htwo, htwo]
    exact hone.next hr hc hsees
  have hmarks {c d : Char} (hc : c ≠ '\n' ∧ c ≠ '\r') (hd : d ≠ '\n' ∧ d ≠ '\r')
      (hsees : ((k.skip 1).sees c || (k.skip 1).sees d) = true) :
      Beside r r' (k.skip 2) (k'.skip 2) :=
    (Bool.or_eq_true_iff.mp hsees).elim (hmark hc) (hmark hd)
  unfold scanZero
  simp only [hone.sees hr hr' (c := 'x') (by decide), hone.sees hr hr' (c := 'X') (by decide),
    hone.sees hr hr' (c := 'o') (by decide), hone.sees hr hr' (c := 'O') (by decide),
    hone.sees hr hr' (c := 'b') (by decide), hone.sees hr hr' (c := 'B') (by decide),
    hone.sees hr hr' (c := '.') (by decide), hone.sees hr hr' (c := 'n') (by decide),
    hone.peek_any (p := Char.isDigit) (by decide) hr hr']
  split
  · rename_i hx
    exact scanRadix_alike (by decide) hr hr' (hmarks (by decide) (by decide) hx)
  split
  · rename_i ho
    exact scanRadix_alike (by decide) hr hr' (hmarks (by decide) (by decide) ho)
  split
  · rename_i hb
    exact scanRadix_alike (by decide) hr hr' (hmarks (by decide) (by decide) hb)
  split
  · exact scanLeadingZero_alike hr hr' h
  split
  · rename_i hpoint
    exact scanFraction_alike hr hr' _ (hmark (by decide) hpoint)
  split
  · rename_i hn
    exact endNumber_alike hr hr' _ (hmark (by decide) hn)
  · exact finishDecimal_alike hr hr' _ _ hone

theorem scanNumber_alike (hr : Break r) (hr' : Break r') (h : Beside r r' k k') :
    Alike r r' (scanNumber k) (scanNumber k') := by
  rw [scanNumber_eq, scanNumber_eq, h.sees hr hr' (c := '0') (by decide)]
  split
  · rename_i hzero
    exact scanZero_alike hr hr' h hzero
  · exact scanDecimal_alike hr hr' h

/-! ## Punctuators -/

theorem oneLine_punctuators : ∀ p ∈ punctuators, OneLine p.toList := by
  have hall : ∀ p ∈ punctuators, (p.toList.all fun c => c != '\n' && c != '\r') = true := by
    decide
  intro p hp c hc
  simpa using List.all_eq_true.mp (hall p hp) c hc

/-- A punctuator stands before the end of the line. -/
theorem punctuatorAt_eq (hr : Break r) (hr' : Break r') {l : List Char} (hl : OneLine l) :
    punctuatorAt (l ++ r') = punctuatorAt (l ++ r) := by
  unfold punctuatorAt
  refine List.find?_congr fun p hp => ?_
  have hp := oneLine_punctuators p hp
  by_cases hstarts : p.toList <+: l
  · rw [(hp.isPrefixOf_append hr).mpr hstarts, (hp.isPrefixOf_append hr').mpr hstarts]
    by_cases hchain : p = "?."
    · subst hchain
      obtain ⟨y, rfl⟩ := hstarts
      have hrest : Beside r r' ⟨y ++ r, 0⟩ ⟨y ++ r', 0⟩ :=
        ⟨y, fun c hc => hl c (List.mem_append_right _ hc), rfl, rfl⟩
      have hdigit := hrest.peek_any (p := Char.isDigit) (by decide) hr hr'
      exact congrArg (fun b => true && !(true && b)) hdigit
    · rw [beq_eq_false_iff_ne.mpr hchain]
      rfl
  · rw [Bool.eq_false_iff.mpr fun h => hstarts ((hp.isPrefixOf_append hr).mp h),
      Bool.eq_false_iff.mpr fun h => hstarts ((hp.isPrefixOf_append hr').mp h)]
    rfl

end

/-! ## Literals -/

/-- What is taken up to a closing mark, with `rest` behind it, does not depend on that rest. -/
def Delimited {α : Type} (f : List Char → Nat → Option α) (cs : List Char) (result : Cursor → α)
    (rest : List Char) : Prop :=
  ∃ x, x ≠ [] ∧ cs = x ++ rest
    ∧ ∀ rest' o, ∃ o', f (x ++ rest') o = some (result ⟨rest', o'⟩)

theorem stringBody_delimited {quote : Char} (hquote : quote ≠ '\\') {cs : List Char} {o : Nat}
    {b : List Char} {k : Cursor} (h : stringBody quote cs o = some (b, k)) :
    Delimited (stringBody quote) cs (fun k => (b, k)) k.rest := by
  induction cs, o using stringBody.induct quote generalizing b k with
  | case1 o => cases h
  | case2 cs o ih =>
    rw [stringBody] at h
    obtain ⟨⟨b', k'⟩, hb, heq⟩ := Option.map_eq_some_iff.mp h
    cases heq
    obtain ⟨x, hne, rfl, hx⟩ := ih hb
    refine ⟨'\\' :: '\r' :: '\n' :: x, by simp, by simp, fun rest' o => ?_⟩
    obtain ⟨o', ho⟩ := hx rest' (o + 3)
    exact ⟨o', by simp [stringBody, ho]⟩
  | case3 c cs o hc ih =>
    rw [stringBody.eq_3 _ _ _ _ hc] at h
    obtain ⟨⟨b', k'⟩, hb, heq⟩ := Option.map_eq_some_iff.mp h
    cases heq
    obtain ⟨x, hne, rfl, hx⟩ := ih hb
    refine ⟨'\\' :: c :: x, by simp, by simp, fun rest' o => ?_⟩
    obtain ⟨o', ho⟩ := hx rest' (o + 1 + c.utf8Size)
    have hnext : ∀ t, c = '\r' → x ++ rest' = '\n' :: t → False := by
      intro t hreturn hfeed
      obtain ⟨d, x, rfl⟩ := List.exists_cons_of_ne_nil hne
      exact hc _ hreturn (by rw [List.cons_append, (List.cons.inj hfeed).1])
    exact ⟨o', by rw [List.cons_append, List.cons_append, stringBody.eq_3 _ _ _ _ hnext, ho]; rfl⟩
  | case4 c cs o hr hc hq =>
    obtain rfl := beq_iff_eq.mp hq
    rw [stringBody.eq_4 _ _ _ _ hr hc, if_pos hq] at h
    cases h
    refine ⟨[c], by simp, rfl, fun rest' o => ⟨o + 1, ?_⟩⟩
    rw [List.singleton_append, stringBody.eq_4 _ _ _ _ (fun _ h => absurd h hquote)
      (fun _ _ h => absurd h hquote), if_pos hq]
  | case5 c cs o hr hc hq hline =>
    rw [stringBody.eq_4 _ _ _ _ hr hc, if_neg hq, if_pos hline] at h
    cases h
  | case6 c cs o hr hc hq hline ih =>
    rw [stringBody.eq_4 _ _ _ _ hr hc, if_neg hq, if_neg hline] at h
    obtain ⟨⟨b', k'⟩, hb, heq⟩ := Option.map_eq_some_iff.mp h
    cases heq
    obtain ⟨x, hne, rfl, hx⟩ := ih hb
    obtain ⟨d, y, rfl⟩ := List.exists_cons_of_ne_nil hne
    have hplain : c ≠ '\\' := fun heq => hc d _ heq rfl
    refine ⟨c :: d :: y, by simp, rfl, fun rest' o => ?_⟩
    obtain ⟨o', ho⟩ := hx rest' (o + c.utf8Size)
    refine ⟨o', ?_⟩
    rw [List.cons_append, stringBody.eq_4 _ _ _ _ (fun _ h => absurd h hplain)
      (fun _ _ h => absurd h hplain), if_neg hq, if_neg hline, ho]
    rfl

theorem templateBody_delimited {cs : List Char} {o : Nat} {b : List Char} {last : Bool} {k : Cursor}
    (h : templateBody cs o = some (b, last, k)) :
    Delimited templateBody cs (fun k => (b, last, k)) k.rest := by
  induction cs, o using templateBody.induct generalizing b last k with
  | case1 o => cases h
  | case2 c cs o ih =>
    rw [templateBody] at h
    obtain ⟨⟨b', l', k'⟩, hb, heq⟩ := Option.map_eq_some_iff.mp h
    cases heq
    obtain ⟨x, hne, rfl, hx⟩ := ih hb
    refine ⟨'\\' :: c :: x, by simp, by simp, fun rest' o => ?_⟩
    obtain ⟨o', ho⟩ := hx rest' (o + 1 + c.utf8Size)
    exact ⟨o', by rw [List.cons_append, List.cons_append, templateBody, ho]; rfl⟩
  | case3 cs o =>
    rw [templateBody] at h
    cases h
    exact ⟨['$', '\x7b'], by simp, rfl, fun rest' o => ⟨o + 2, by
      rw [List.cons_append, List.singleton_append, templateBody]⟩⟩
  | case4 c cs o hc hhole hq =>
    obtain rfl := beq_iff_eq.mp hq
    rw [templateBody.eq_4 _ _ _ hc hhole, if_pos hq] at h
    cases h
    exact ⟨['`'], by simp, rfl, fun rest' o => ⟨o + 1, rfl⟩⟩
  | case5 c cs o hc hhole hq ih =>
    rw [templateBody.eq_4 _ _ _ hc hhole, if_neg hq] at h
    obtain ⟨⟨b', l', k'⟩, hb, heq⟩ := Option.map_eq_some_iff.mp h
    cases heq
    obtain ⟨x, hne, rfl, hx⟩ := ih hb
    obtain ⟨d, y, rfl⟩ := List.exists_cons_of_ne_nil hne
    have hplain : c ≠ '\\' := fun heq => hc d _ heq rfl
    refine ⟨c :: d :: y, by simp, rfl, fun rest' o => ?_⟩
    have hopen : ∀ t, c = '$' → d :: y ++ rest' = '\x7b' :: t → False := fun t hdollar hbrace =>
      hhole _ hdollar (by rw [List.cons_append, (List.cons.inj hbrace).1])
    obtain ⟨o', ho⟩ := hx rest' (o + c.utf8Size)
    refine ⟨o', ?_⟩
    rw [List.cons_append, templateBody.eq_4 _ _ _ (fun _ _ h => absurd h hplain) hopen, if_neg hq,
      ho]
    rfl

theorem regexBody_delimited {inClass : Bool} {cs : List Char} {o : Nat} {b : List Char} {k : Cursor}
    (h : regexBody inClass cs o = some (b, k)) :
    Delimited (regexBody inClass) cs (fun k => (b, k)) k.rest := by
  induction inClass, cs, o using regexBody.induct generalizing b k with
  | case1 inClass o => cases h
  | case2 inClass c cs o hline =>
    rw [regexBody, if_pos hline] at h
    cases h
  | case3 inClass c cs o hline ih =>
    rw [regexBody, if_neg hline] at h
    obtain ⟨⟨b', k'⟩, hb, heq⟩ := Option.map_eq_some_iff.mp h
    cases heq
    obtain ⟨x, hne, rfl, hx⟩ := ih hb
    refine ⟨'\\' :: c :: x, by simp, by simp, fun rest' o => ?_⟩
    obtain ⟨o', ho⟩ := hx rest' (o + 1 + c.utf8Size)
    exact ⟨o', by rw [List.cons_append, List.cons_append, regexBody, if_neg hline, ho]; rfl⟩
  | case4 inClass c cs o hc hline =>
    rw [regexBody.eq_3 _ _ _ _ hc, if_pos hline] at h
    cases h
  | case5 inClass c cs o hc hline hq =>
    rw [regexBody.eq_3 _ _ _ _ hc, if_neg hline, if_pos hq] at h
    cases h
    have hslash : c = '/' := by simpa using (Bool.and_eq_true_iff.mp hq).1
    refine ⟨[c], by simp, rfl, fun rest' o => ⟨o + 1, ?_⟩⟩
    rw [List.singleton_append, regexBody.eq_3 _ _ _ _ (by rintro _ _ rfl; cases hslash),
      if_neg hline, if_pos hq]
  | case6 inClass c cs o hc hline hq _ =>
    rename_i ih
    rw [regexBody.eq_3 _ _ _ _ hc, if_neg hline, if_neg hq] at h
    obtain ⟨⟨b', k'⟩, hb, heq⟩ := Option.map_eq_some_iff.mp h
    cases heq
    obtain ⟨x, hne, rfl, hx⟩ := ih hb
    obtain ⟨d, y, rfl⟩ := List.exists_cons_of_ne_nil hne
    have hplain : c ≠ '\\' := fun heq => hc d _ heq rfl
    refine ⟨c :: d :: y, by simp, rfl, fun rest' o => ?_⟩
    obtain ⟨o', ho⟩ := hx rest' (o + c.utf8Size)
    refine ⟨o', ?_⟩
    rw [List.cons_append, regexBody.eq_3 _ _ _ _ (fun _ _ h => absurd h hplain), if_neg hline,
      if_neg hq]
    exact congrArg (Option.map fun x => (c :: x.1, x.2)) ho

/-! ## Tokens -/

/-- The characters from one cursor up to another one. -/
def Cursor.upTo (k next : Cursor) : List Char := k.rest.take (k.rest.length - next.rest.length)

theorem Cursor.upTo_eq {k next : Cursor} {x : List Char} (h : k.rest = x ++ next.rest) :
    k.upTo next = x := by
  rw [upTo, h, List.length_append, Nat.add_sub_cancel, List.take_left]

section

variable {r r' : List Char} {k k' : Cursor}

/-- The same characters lead from cursors on a line to cursors on that line. -/
theorem Beside.upTo_eq {next next' : Cursor} (h : Beside r r' k k')
    (hnext : Beside r r' next next') : k'.upTo next' = k.upTo next := by
  obtain ⟨l, -, hk, hk'⟩ := h
  obtain ⟨y, -, hy, hy'⟩ := hnext
  have htake (x : List Char) : (l ++ x).take ((l ++ x).length - (y ++ x).length)
      = l.take (l.length - y.length) := by
    rw [List.length_append, List.length_append, Nat.add_sub_add_right,
      List.take_append_of_le_length (Nat.sub_le _ _)]
  rw [Cursor.upTo, Cursor.upTo, hk, hk', hy, hy', htake, htake]

/-- What is taken up to a closing mark on the same line is taken alike. -/
theorem Delimited.beside {α : Type} {f : List Char → Nat → Option α} {result : Cursor → α}
    {next : Cursor} (hr : Break r) (h : Beside r r' k k') {n : Nat} (hn : n ≤ k.rest.length)
    (htaken : Delimited f (k.skip n).rest result next.rest) (hline : OneLine (k.upTo next)) :
    ∃ next', f (k'.skip n).rest (k'.skip n).offset = some (result next')
      ∧ Beside r r' next next' := by
  obtain ⟨l, hl, hk, hk'⟩ := h
  obtain ⟨x, -, hx, hagain⟩ := htaken
  have hall : k.rest = (k.rest.take n ++ x) ++ next.rest := by
    rw [List.append_assoc, ← hx, Cursor.rest_skip, List.take_append_drop]
  rw [Cursor.upTo_eq hall] at hline
  obtain ⟨y, hl', hy⟩ := hline.append_eq hr (hall.symm.trans hk)
  have hrest : (k'.skip n).rest = x ++ (y ++ r') := by
    rw [Cursor.rest_skip, hk', hl', List.append_assoc, List.append_assoc,
      List.drop_left' (List.length_take_of_le hn)]
  obtain ⟨o', ho⟩ := hagain (y ++ r') (k'.skip n).offset
  rw [hrest, ho]
  refine ⟨_, rfl, y, fun c hc => hl c ?_, hy, rfl⟩
  rw [hl']
  exact List.mem_append_right _ hc

theorem scanString_alike {quote : Char} (hquote : quote ≠ '\\') (hr : Break r)
    (h : Beside r r' k k') (hne : k.rest ≠ [])
    (hline : OneLine (k.upTo (scanString quote (k.skip 1)).next)) :
    Alike r r' (scanString quote (k.skip 1)) (scanString quote (k'.skip 1)) := by
  unfold scanString at hline ⊢
  split
  · exact .bad _ _
  · rename_i b next hbody
    rw [hbody] at hline
    obtain ⟨next', hbody', hnext⟩ := (stringBody_delimited hquote hbody).beside hr h
      (List.length_pos_iff.mpr hne) hline
    rw [hbody']
    exact fun hsound => ⟨rfl, rfl, hsound, hnext⟩

theorem scanTemplatePiece_alike (hr : Break r) (h : Beside r r' k k') (hne : k.rest ≠ [])
    (hline : OneLine (k.upTo (scanTemplatePiece (k.skip 1)).next)) :
    Alike r r' (scanTemplatePiece (k.skip 1)) (scanTemplatePiece (k'.skip 1)) := by
  unfold scanTemplatePiece at hline ⊢
  split
  · exact .bad _ _
  · rename_i b last next hbody
    rw [hbody] at hline
    obtain ⟨next', hbody', hnext⟩ := (templateBody_delimited hbody).beside hr h
      (List.length_pos_iff.mpr hne) hline
    rw [hbody']
    exact .ok _ hnext

/-- A punctuator is read alike. -/
theorem punctuator_alike (hr : Break r) (hr' : Break r') (h : Beside r r' k k') :
    Alike r r'
      (match punctuatorAt k.rest with
        | some p => .ok (.punct p) (k.skip p.length)
        | none => .bad (k.skip 1))
      (match punctuatorAt k'.rest with
        | some p => .ok (.punct p) (k'.skip p.length)
        | none => .bad (k'.skip 1)) := by
  obtain ⟨l, hl, hk, hk'⟩ := h
  rw [hk, hk', punctuatorAt_eq hr hr' hl]
  split
  · rename_i p hp
    have hprefix : p.toList <+: l ++ r := by
      have := List.find?_some hp
      rw [Bool.and_eq_true, List.isPrefixOf_iff_prefix] at this
      exact this.1
    obtain ⟨t, ht⟩ := hprefix
    obtain ⟨y, rfl, -⟩ := (oneLine_punctuators p (List.mem_of_find?_eq_some hp)).append_eq hr ht
    refine .ok _ (.skip (x := p.toList) (fun c hc => hl c (List.mem_append_right _ hc)) ?_ ?_)
    · rw [hk, List.append_assoc]
    · rw [hk', List.append_assoc]
  · exact .bad _ _

/-- A token that stays on its line is read alike. -/
theorem scanToken_alike (hr : Break r) (hr' : Break r') (h : Beside r r' k k')
    (hstart : ¬Break k.rest) (hline : OneLine (k.upTo (scanToken k).next)) :
    Alike r r' (scanToken k) (scanToken k') := by
  rcases h.cons_or_break with ⟨c, l, hl, hk, hk'⟩ | ⟨hk, -⟩
  · have hskip : Beside r r' (k.skip 1) (k'.skip 1) :=
      .skip (x := [c]) (fun x hx => hl x (List.mem_cons_of_mem _ hx)) hk hk'
    have hdigit : (l ++ r').head?.any Char.isDigit = (l ++ r).head?.any Char.isDigit := by
      simpa [Cursor.peek, Cursor.rest_skip, hk, hk'] using
        hskip.peek_any (p := Char.isDigit) (by decide) hr hr'
    have hne : k.rest ≠ [] := by simp [hk]
    have hpunct := punctuator_alike hr hr' h
    unfold scanToken at hline ⊢
    rw [hk] at hline hpunct ⊢
    rw [hk'] at hpunct ⊢
    dsimp only at hline ⊢
    rw [hdigit]
    split
    · exact scanName_alike hr hr' h
    rename_i hname
    rw [if_neg hname] at hline
    split
    · exact scanNumber_alike hr hr' h
    rename_i hnumber
    rw [if_neg hnumber] at hline
    split
    · exact scanFraction_alike hr hr' _ hskip
    rename_i hfraction
    rw [if_neg hfraction] at hline
    split
    · rename_i hquote
      rw [if_pos hquote] at hline
      have hslash : c ≠ '\\' := by
        rintro rfl
        exact absurd hquote (by decide)
      exact scanString_alike hslash hr h hne hline
    rename_i hquote
    rw [if_neg hquote] at hline
    split
    · rename_i htick
      rw [if_pos htick] at hline
      exact scanTemplatePiece_alike hr h hne hline
    split
    · exact scanPrivateName_alike hr hr' hskip
    · exact hpunct
  · exact absurd (hk ▸ hr) hstart

/-! ## Regular expressions -/

/-- A regular expression is read alike. -/
theorem scanRegex_alike (hr : Break r) (hr' : Break r') (h : Beside r r' k k') (hne : k.rest ≠ [])
    (hsound : (scanRegex k).flawed = false) (hline : OneLine (k.upTo (scanRegex k).next)) :
    (scanRegex k').pattern = (scanRegex k).pattern ∧ (scanRegex k').flags = (scanRegex k).flags
    ∧ (scanRegex k').flawed = false ∧ Beside r r' (scanRegex k).next (scanRegex k').next := by
  unfold scanRegex at hsound hline ⊢
  cases hbody : regexBody false (k.skip 1).rest (k.skip 1).offset with
  | none =>
    rw [hbody] at hsound
    cases hsound
  | some x =>
    obtain ⟨body, next⟩ := x
    rw [hbody] at hsound hline
    -- The flags come behind the body, so the body alone is on the line too.
    have hbodyLine : OneLine (k.upTo next) := by
      intro c hc
      refine hline c ?_
      have hshort := (List.dropWhile_suffix (l := next.rest)
        fun c => c == '$' || c == '_' || c.isAlphanum).length_le
      rw [Cursor.upTo, ← Nat.min_eq_left (Nat.sub_le_sub_left hshort k.rest.length),
        ← List.take_take, ← Cursor.rest_span] at hc
      exact List.mem_of_mem_take hc
    obtain ⟨next', hbody', hnext⟩ := (regexBody_delimited hbody).beside hr h
      (List.length_pos_iff.mpr hne) hbodyLine
    obtain ⟨hflags, hspan⟩ := hnext.span
      (p := fun c => c == '$' || c == '_' || c.isAlphanum) (by decide) hr hr'
    rw [hbody']
    dsimp only at hsound ⊢
    rw [hflags]
    exact ⟨rfl, rfl, hsound, hspan⟩

end

end Reactive.Script
