import Mathlib.Data.List.TakeWhile
import SpanningMesh.Text.Json

/-!
# Reading what is written in JSON

Each piece of JSON is read off the front of a text that begins with it, with blanks before it,
and what stands behind is left: a literal (`literal_plain`), a number (`natBelow_toDigits`), a flag
(`bool_true`), a member of an object (`member_plain`).  A number is read as far as it goes, so what
stands behind it must end it (`EndsNumber`).

Lists are read item by item, and `continued` is the reader between two items.  Values with commas
between them are read as a list exactly if each of them is (`list_elements`).

`quoted` looks at a text without reading it, and gives what stands between its quotes.
-/

namespace SpanningMesh

/-! ## Scans, step by step -/

namespace Scan

variable {α β : Type} {s : Scan α} {f : α → Scan β} {a : α} {p : Char → Bool} {c : Char}
  {w cs cs' : List Char}

theorem bind_apply : (s >>= f) cs = (s cs).bind fun r => f r.1 r.2 := by
  show (s cs >>= _) = _
  cases s cs <;> rfl

theorem map_apply {g : α → β} : (g <$> s) cs = (s cs).map fun r => (g r.1, r.2) := by
  show (s cs >>= _) = _
  cases s cs <;> rfl

/-- A scan that took a value is followed by what is done with the value. -/
theorem bind_of_eq (h : s cs = some (a, cs')) : (s >>= f) cs = f a cs' := by
  rw [bind_apply, h, Option.bind_some]

@[simp] theorem pure_apply : (pure a : Scan α) cs = some (a, cs) := rfl

@[simp] theorem failure_apply : (failure : Scan α) cs = none := rfl

@[simp] theorem rest_apply : rest cs = some (cs, cs) := rfl

@[simp] theorem peek_cons : peek (c :: cs) = some (c, c :: cs) := rfl

@[simp] theorem next_cons : next (c :: cs) = some (c, cs) := rfl

@[simp] theorem char_cons : char c (c :: cs) = some ((), cs) := by simp [char]

/-- A word is read where it stands. -/
theorem word_append : word w (w ++ cs) = some ((), cs) := by
  induction w with
  | nil => rfl
  | cons c w ih => rw [word, List.cons_append, bind_of_eq char_cons, ih]

/-- A run goes as far as its class does. -/
theorem run_append (inside : ∀ c ∈ w, p c = true) (outside : ∀ c ∈ cs.head?, p c = false) :
    run p (w ++ cs) = some (w, cs) := by
  rw [run, List.takeWhile_append_of_pos inside, List.dropWhile_append_of_pos inside]
  cases cs with
  | nil => simp
  | cons c cs => simp [outside c rfl]

/-- A scan takes all of a text if it leaves nothing of it. -/
theorem all_of_map {result : Option α} (h : s cs = result.map (·, [])) : all s cs = result := by
  rw [all, h]
  cases result <;> rfl

/-- The digits of a number make up that number. -/
theorem decimal_toDigits (n : Nat) : decimal (Nat.toDigits 10 n) = n := by
  rw [decimal, ← Nat.ofDigitChars_eq_foldl, Nat.ofDigitChars_ten_toDigits]

end Scan

namespace Json

variable {σ : Type} {c : Char} {w cs rest : List Char}

/-! ## Blanks -/

/-- A text of blanks only. -/
def Blank (w : List Char) : Prop := ∀ c ∈ w, isBlank c = true

theorem blank_nil : Blank [] := List.forall_mem_nil _

/-- Blanks in front of more blanks are skipped with them. -/
theorem blanks_append (h : Blank w) : blanks (w ++ cs) = blanks cs := by
  rw [blanks, Scan.skip, List.dropWhile_append_of_pos h]
  rfl

/-- Nothing is skipped in front of what is not blank. -/
theorem blanks_cons (h : isBlank c = false) : blanks (c :: cs) = some ((), c :: cs) := by
  rw [blanks, Scan.skip, List.dropWhile_cons_of_neg (by simp [h])]

theorem isBlank_of_isDigit (h : c.isDigit = true) : isBlank c = false := by
  rw [Bool.eq_false_iff]
  intro blank
  simp only [isBlank, Bool.or_eq_true, beq_iff_eq] at blank
  obtain ((rfl | rfl) | rfl) | rfl := blank <;> cases h

/-! ## String literals -/

/-- Whether a character stands for itself in a literal. -/
def isPlain (c : Char) : Bool := c != '"' && c != '\\' && decide (0x20 ≤ c.toNat)

/-- Plain characters stand for themselves. -/
theorem pieces_plain (h : w.all isPlain = true) :
    pieces (w ++ '"' :: cs) = some (w.map .char, cs) := by
  induction w with
  | nil => simp [pieces]
  | cons c w ih =>
      simp only [List.all_cons, isPlain, Bool.and_eq_true, bne_iff_ne, decide_eq_true_eq] at h
      obtain ⟨⟨⟨quote, escape⟩, visible⟩, others⟩ := h
      have control : ¬ c.toNat < 0x20 := Nat.not_lt.mpr visible
      rw [List.cons_append, pieces]
      · simp [control, escape, ih others]
      · exact quote
      · exact fun _ _ _ _ _ same => absurd same escape
      · exact fun _ _ same => absurd same escape

theorem spell?_plain (w : List Char) : spell? (w.map .char) = some w := by
  induction w with
  | nil => rfl
  | cons c w ih => rw [List.map_cons, spell?, ih, Option.map_some]

/-- Plain text in quotes is read back, whatever stands behind it. -/
theorem literal_plain (h : w.all isPlain = true) :
    literal ('"' :: w ++ '"' :: cs) = some (some w, cs) := by
  rw [literal, List.cons_append, Scan.bind_of_eq Scan.char_cons,
    Scan.bind_of_eq (show (pieces : Scan (List Piece)) _ = _ from pieces_plain h), spell?_plain]
  rfl

/-- What stands between the quotes of a text in which no quote is escaped. -/
def quoted : List Char → List String
  | [] => []
  | c :: cs =>
      if c = '"' then
        String.ofList (cs.takeWhile (· ≠ '"')) :: quoted (cs.dropWhile (· ≠ '"')).tail
      else quoted cs
termination_by cs => cs.length
decreasing_by
  · have shorter := (List.dropWhile_sublist (· ≠ '"') (l := cs)).length_le
    simp only [List.length_tail, List.length_cons]
    omega
  · simp

theorem quoted_cons (h : c ≠ '"') : quoted (c :: cs) = quoted cs := by
  rw [quoted, if_neg h]

/-- Text without quotes holds no quoted text. -/
theorem quoted_append (h : '"' ∉ w) : quoted (w ++ cs) = quoted cs := by
  induction w with
  | nil => rfl
  | cons c w ih =>
      obtain ⟨other, others⟩ := not_or.mp (mt List.mem_cons.mpr h)
      rw [List.cons_append, quoted_cons (Ne.symm other), ih others]

/-- What stands in the first pair of quotes comes first. -/
theorem quoted_literal (h : '"' ∉ w) :
    quoted ('"' :: w ++ '"' :: cs) = String.ofList w :: quoted cs := by
  have inside : ∀ c ∈ w, decide (c ≠ '"') = true := fun c hc =>
    decide_eq_true fun same => h (same ▸ hc)
  rw [List.cons_append, quoted, if_pos rfl, List.takeWhile_append_of_pos inside,
    List.dropWhile_append_of_pos inside]
  simp

/-- There are no more quoted texts than characters. -/
theorem length_quoted_le (cs : List Char) : (quoted cs).length ≤ cs.length := by
  fun_induction quoted cs with
  | case1 => exact Nat.le_refl _
  | case2 cs ih =>
      have shorter := (List.dropWhile_sublist (· ≠ '"') (l := cs)).length_le
      rw [List.length_tail] at ih
      rw [List.length_cons, List.length_cons]
      omega
  | case3 c cs other ih => exact Nat.le_succ_of_le ih

/-! ## Numbers and flags -/

/-- A text that cannot go on with a number in front of it. -/
def EndsNumber (cs : List Char) : Prop :=
  ∀ c ∈ cs.head?, c.isDigit = false ∧ c ≠ '.' ∧ c ≠ 'e' ∧ c ≠ 'E'

/-- Only zero is written with a zero in front. -/
theorem head_toDigits {n : Nat} (h : n ≠ 0) : (Nat.toDigits 10 n).head? ≠ some '0' := by
  induction n using Nat.strong_induction_on with
  | _ n ih =>
      rw [Nat.toDigits_eq_if (by decide)]
      split
      next small => simp [h]
      next large =>
        rw [List.head?_append, Option.or_of_isSome (by simp [Nat.toDigits_ne_nil])]
        exact ih (n / 10) (by omega) (by omega)

theorem toDigits_eq_cons (n : Nat) : ∃ c ds, Nat.toDigits 10 n = c :: ds ∧ c.isDigit = true := by
  obtain ⟨c, ds, eq⟩ := List.exists_cons_of_ne_nil (Nat.toDigits_ne_nil (n := n) (b := 10))
  exact ⟨c, ds, eq,
    Nat.isDigit_of_mem_toDigits (by decide) (by decide) (eq ▸ List.mem_cons_self)⟩

/-- The digits of a number are read up to its end. -/
theorem digits_toDigits (n : Nat) (ends : EndsNumber cs) :
    digits (Nat.toDigits 10 n ++ cs) = some (Nat.toDigits 10 n, cs) := by
  have run : Scan.run Char.isDigit (Nat.toDigits 10 n ++ cs) = some (Nat.toDigits 10 n, cs) :=
    Scan.run_append (fun _ h => Nat.isDigit_of_mem_toDigits (by decide) (by decide) h)
      fun c h => (ends c h).1
  rw [digits, Scan.bind_of_eq run]
  -- The match is on the digits alone, so it is settled before what follows them comes in.
  refine congrFun (?_ : _ = (pure (Nat.toDigits 10 n) : Scan (List Char))) cs
  split
  next none => exact absurd none Nat.toDigits_ne_nil
  next leading =>
    have pos : n ≠ 0 := by
      rintro rfl
      simp [Nat.toDigits_zero] at leading
    exact absurd (congrArg List.head? leading) (head_toDigits pos)
  next => rfl

/-- Behind a number that ends there is no fraction. -/
theorem fraction_of_endsNumber (ends : EndsNumber cs) : fraction cs = some (false, cs) := by
  cases cs with
  | nil => rfl
  | cons c cs =>
      obtain ⟨-, point, small, capital⟩ := ends c rfl
      simp [fraction, Scan.bind_apply, point, small, capital]

/-- A number is read back if nothing that could belong to it stands behind it. -/
theorem number_toDigits (n : Nat) (ends : EndsNumber cs) :
    number (Nat.toDigits 10 n ++ cs) = some (some n, cs) := by
  have read := digits_toDigits n ends
  have value := Scan.decimal_toDigits n
  obtain ⟨c, ds, eq, digit⟩ := toDigits_eq_cons n
  have unsigned : c ≠ '-' := by
    rintro rfl
    cases digit
  rw [eq, List.cons_append] at read
  rw [eq] at value
  rw [eq, List.cons_append]
  simp [number, Scan.bind_apply, unsigned, read, fraction_of_endsNumber ends, value]

/-- A number below a bound is read back with that bound. -/
theorem natBelow_toDigits {n bound : Nat} (blank : Blank w) (below : n < bound)
    (ends : EndsNumber cs) :
    natBelow bound (w ++ (Nat.toDigits 10 n ++ cs)) = some (n, cs) := by
  have start : blanks (Nat.toDigits 10 n ++ cs) = some ((), Nat.toDigits 10 n ++ cs) := by
    obtain ⟨c, ds, eq, digit⟩ := toDigits_eq_cons n
    rw [eq]
    exact blanks_cons (isBlank_of_isDigit digit)
  simp [natBelow, Scan.bind_apply, blanks_append blank, start, number_toDigits n ends, below]

theorem bool_true (blank : Blank w) : bool (w ++ ("true".toList ++ cs)) = some (true, cs) := by
  have start : blanks ("true".toList ++ cs) = some ((), "true".toList ++ cs) := blanks_cons rfl
  have first : Scan.peek ("true".toList ++ cs) = some ('t', "true".toList ++ cs) := rfl
  have word : Scan.word ['t', 'r', 'u', 'e'] ("true".toList ++ cs) = some ((), cs) :=
    Scan.word_append
  simp only [bool, Scan.bind_apply, blanks_append blank, start, first, word, Option.bind_some,
    if_true, Scan.pure_apply]

/-! ## Lists, item by item -/

section Items

variable {close : Char} {item : σ → Scan σ} {count : Nat} {s s' : σ}

/-- A list that is not empty begins with its first item, if that skips the blanks in front of it. -/
theorem list_cons (blank : Blank w) (visible : isBlank c = false) (other : c ≠ close)
    (skips : item s (w ++ c :: cs) = item s (c :: cs)) :
    list close item count s (w ++ c :: cs) = separated close item count s (w ++ c :: cs) := by
  have start : list close item count s (w ++ c :: cs) = separated close item count s (c :: cs) := by
    simp [list, Scan.bind_apply, blanks_append blank, blanks_cons visible, other]
  rw [start]
  cases count with
  | zero => rfl
  | succ count => rw [separated, Scan.bind_apply, Scan.bind_apply, skips]

/-- What is read behind an item: the end of the list, or a comma and the items that follow. -/
def continued (close : Char) (item : σ → Scan σ) (count : Nat) (s : σ) : Scan σ := do
  blanks
  let c ← Scan.next
  if c = ',' then separated close item count s
  else if c = close then return s
  else failure

/-- An item is read, and then what stands behind it. -/
theorem separated_succ :
    separated close item (count + 1) s cs =
      (item s cs).bind fun r => continued close item count r.1 r.2 :=
  Scan.bind_apply

theorem separated_of_eq (h : item s cs = some (s', rest)) :
    separated close item (count + 1) s cs = continued close item count s' rest := by
  rw [separated_succ, h, Option.bind_some]

/-- Behind a comma stands another item. -/
theorem continued_comma :
    continued close item count s (',' :: cs) = separated close item count s cs := by
  have visible : isBlank ',' = false := rfl
  simp [continued, Scan.bind_apply, blanks_cons visible]

/-- The closing bracket ends the items. -/
theorem continued_close (blank : Blank w) (visible : isBlank close = false)
    (other : close ≠ ',') : continued close item count s (w ++ close :: cs) = some (s, cs) := by
  simp [continued, Scan.bind_apply, blanks_append blank, blanks_cons visible, other]

end Items

/-! ## Members -/

section Members

variable {value : Option (List Char) → σ → Scan σ} {key : List Char} {s : σ}

theorem member_append (blank : Blank w) : member value s (w ++ cs) = member value s cs := by
  rw [member, Scan.bind_apply, Scan.bind_apply, blanks_append blank]

/-- A member of an object is read as its key demands. -/
theorem member_plain (blank : Blank w) (plain : key.all isPlain = true) :
    member value s (w ++ ('"' :: key ++ '"' :: ':' :: cs)) = value (some key) s cs := by
  have quote : isBlank '"' = false := rfl
  have colon : isBlank ':' = false := rfl
  have name : literal ('"' :: key ++ '"' :: ':' :: cs) = some (some key, ':' :: cs) :=
    literal_plain plain
  rw [List.cons_append] at name
  rw [member_append blank, List.cons_append]
  simp [member, Scan.bind_apply, blanks_cons quote, name, blanks_cons colon]

end Members

/-! ## Values in a row -/

section Elements

variable {α β : Type} {element : Scan α} {read : β → Option α} {write : β → List Char → List Char}
  {close : Char} {gap lead : List Char} {count : Nat} {b : β} {bs : List β}

/-- One more value of an array, in front of those that were read before it. -/
def push (element : Scan α) (acc : List α) : Scan (List α) := do
  let a ← element
  return a :: acc

/-- The values that are read are collected. -/
theorem separated_push {result : Option α} (h : element cs = result.map (·, rest))
    (acc : List α) :
    separated close (push element) (count + 1) acc cs =
      result.bind fun a => continued close (push element) count (a :: acc) rest := by
  rw [separated_succ, push, Scan.bind_apply, h]
  cases result <;> rfl

/-- Values with commas between them are read if each of them is, whatever blanks stand before it. -/
theorem separated_elements (visible : isBlank close = false) (other : close ≠ ',')
    (gapBlank : Blank gap) (blank : Blank w) (leadBlank : Blank lead)
    (reads : ∀ b' ∈ b :: bs, ∀ lead cs, Blank lead →
      element (lead ++ write b' cs) = (read b').map (·, cs))
    (enough : bs.length < count) (acc : List α) :
    separated close (push element) count acc
        (lead ++ write b (bs.foldr (fun b cs => ',' :: (gap ++ write b cs)) (w ++ close :: cs))) =
      ((b :: bs).mapM read).map fun as => (as.reverse ++ acc, cs) := by
  induction bs generalizing b acc count lead with
  | nil =>
      obtain ⟨count, rfl⟩ := Nat.exists_eq_succ_of_ne_zero (Nat.ne_zero_of_lt enough)
      obtain ⟨first, -⟩ := List.forall_mem_cons.mp reads
      rw [separated_push (first _ _ leadBlank), List.mapM_cons]
      simp only [List.foldr_nil, continued_close blank visible other]
      cases read b <;> rfl
  | cons b' bs ih =>
      obtain ⟨count, rfl⟩ := Nat.exists_eq_succ_of_ne_zero (Nat.ne_zero_of_lt enough)
      obtain ⟨first, others⟩ := List.forall_mem_cons.mp reads
      rw [separated_push (first _ _ leadBlank), List.mapM_cons]
      simp only [List.foldr_cons, continued_comma]
      cases read b with
      | none => rfl
      | some a =>
          rw [Option.bind_some, ih gapBlank others (Nat.lt_of_succ_lt_succ enough) (a :: acc)]
          cases (b' :: bs).mapM read with
          | none => rfl
          | some as => simp

/-- The same of a list with its end, if the first value begins with another character than that. -/
theorem list_elements (visible : isBlank close = false) (other : close ≠ ',')
    (gapBlank : Blank gap) (blank : Blank w) (leadBlank : Blank lead)
    (opens : ∀ cs, ∃ c cs', write b cs = c :: cs' ∧ isBlank c = false ∧ c ≠ close)
    (reads : ∀ b' ∈ b :: bs, ∀ lead cs, Blank lead →
      element (lead ++ write b' cs) = (read b').map (·, cs))
    (enough : bs.length < count) :
    list close (push element) count []
        (lead ++ write b (bs.foldr (fun b cs => ',' :: (gap ++ write b cs)) (w ++ close :: cs))) =
      ((b :: bs).mapM read).map fun as => (as.reverse, cs) := by
  have first := reads b List.mem_cons_self
  have begins (cs : List Char) : list close (push element) count [] (lead ++ write b cs) =
      separated close (push element) count [] (lead ++ write b cs) := by
    have skips : push element [] (lead ++ write b cs) = push element [] (write b cs) := by
      rw [push, Scan.bind_apply, Scan.bind_apply, first lead cs leadBlank]
      exact congrArg (Option.bind · _) (first [] cs blank_nil).symm
    obtain ⟨c, cs', eq, shown, inside⟩ := opens cs
    rw [eq] at skips ⊢
    exact list_cons leadBlank shown inside skips
  rw [begins, separated_elements visible other gapBlank blank leadBlank reads enough]
  simp only [List.append_nil]

end Elements

end Json

end SpanningMesh
