import Mathlib.Data.Nat.Digits.Defs

/-!
# Text and Numbers in C

The functions of the C library that take lines apart: `fgets`, `strstr`,
`strtok`, `strncpy` and `strtol`, and how `printf` writes a number.

Text is a list of characters, one for each byte. A buffer may hold more than
the string in it; the string ends at the first NUL, and `cString` cuts it
there.

Each function has a lemma for the situation in which it undoes some printing:
a line is read back up to its end, a token up to the delimiter behind it, and
a number is read back from its digits, with any padding in front.

## Main definitions

* `cString`: The string in a buffer.
* `fgets`: The next line of a text.
* `strstr`: The first occurrence of a string in another.
* `strtok`: The next token of a string.
* `strncpy`: A copy of bounded length.
* `strtol`: The number at the start of a string.
* `printNat`: A number, padded with zeros.

## Theorems

* `fgets_line`: A line that is short enough is read as a whole.
* `strstr_isSome_iff`: When there is an occurrence.
* `strtok_append`: A token ends at the delimiter.
* `strtol_printNat`: Reading inverts printing.
* `not_mem_printNat`: Characters that printed numbers do not contain.
* `length_printNat_le`: The length of a printed number.
* `infix_append_left`, `infix_append_right`: Occurrences next to other text.
-/

namespace Vpoline

/-- NUL. -/
def nul : Char := Char.ofNat 0

/-- The string at the start of a buffer: the characters before the first NUL. -/
def cString (buf : List Char) : List Char := buf.takeWhile (fun c => c ≠ nul)

/-- At most `n` characters of a text, up to and including a newline, and what
    follows them. -/
def readLine : Nat → List Char → List Char × List Char
  | 0, text => ([], text)
  | _ + 1, [] => ([], [])
  | n + 1, c :: text =>
      if c = '\n' then ([c], text)
      else
        let (line, rest) := readLine n text
        (c :: line, rest)

/-- `fgets` with a buffer of `size` characters: what it reads, and the rest of
    the file, or `none` at its end. -/
def fgets (size : Nat) (text : List Char) : Option (List Char × List Char) :=
  if text = [] then none else some (readLine (size - 1) text)

/-- `strstr`: the rest of the string from the first occurrence of `needle` on. -/
def strstr (needle : List Char) : List Char → Option (List Char)
  | [] => if needle = [] then some [] else none
  | c :: s => if needle.isPrefixOf (c :: s) then some (c :: s) else strstr needle s

/-- `strtok` with one delimiter: the next token, and where the search goes on
    from. -/
def strtok (delim : Char) (s : List Char) : Option (List Char × List Char) :=
  match s.dropWhile (fun c => c = delim) with
  | [] => none
  | c :: s =>
      some ((c :: s).takeWhile (fun c => c ≠ delim),
        ((c :: s).dropWhile (fun c => c ≠ delim)).drop 1)

/-- The `n` characters that `strncpy` writes. -/
def strncpy (n : Nat) (s : List Char) : List Char :=
  s.take n ++ List.replicate (n - s.length) nul

/-- The value of a letter or digit. -/
def charValue (c : Char) : Option Nat :=
  if '0' ≤ c ∧ c ≤ '9' then some (c.toNat - '0'.toNat)
  else if 'a' ≤ c ∧ c ≤ 'z' then some (c.toNat - 'a'.toNat + 10)
  else if 'A' ≤ c ∧ c ≤ 'Z' then some (c.toNat - 'A'.toNat + 10)
  else none

/-- The value of a digit in a base. -/
def digitValue (base : Nat) (c : Char) : Option Nat :=
  match charValue c with
  | some d => if d < base then some d else none
  | none => none

/-- The number made of `acc` and the digits at the start of a string. -/
def readDigits (base : Nat) : Nat → List Char → Nat
  | acc, [] => acc
  | acc, c :: s =>
      match digitValue base c with
      | some d => readDigits base (acc * base + d) s
      | none => acc

/-- `isspace`. -/
def isspace (c : Char) : Bool :=
  c = ' ' || c = '\t' || c = '\n' || c = '\r' || c = Char.ofNat 11 || c = Char.ofNat 12

/-- The `0x` that may precede a number in base 16. -/
def skipPrefix (base : Nat) : List Char → List Char
  | '0' :: c :: s => if base = 16 ∧ (c = 'x' ∨ c = 'X') then s else '0' :: c :: s
  | s => s

/-- The largest and smallest values of a `long` bound a number. -/
def clampLong (n : Int) : Int := max (-(2 ^ 63)) (min (2 ^ 63 - 1) n)

/-- `strtol`, for a base from 2 to 36. -/
def strtol (base : Nat) (s : List Char) : Int :=
  match s.dropWhile isspace with
  | '-' :: s => clampLong (-(readDigits base 0 (skipPrefix base s)))
  | '+' :: s => clampLong (readDigits base 0 (skipPrefix base s))
  | s => clampLong (readDigits base 0 (skipPrefix base s))

/-- A number in a base up to 16, with zeros in front up to a width. -/
def printNat (base width n : Nat) : List Char := (Nat.toDigits base n).leftpad width '0'

/-! ## Strings in buffers -/

section Until

variable {d : Char} {s : List Char}

theorem all_ne (h : d ∉ s) : ∀ c ∈ s, decide (c ≠ d) = true :=
  fun _ hc => decide_eq_true (fun heq => h (heq ▸ hc))

theorem takeWhile_ne_append (h : d ∉ s) (rest : List Char) :
    (s ++ d :: rest).takeWhile (fun c => c ≠ d) = s := by
  rw [List.takeWhile_append_of_pos (all_ne h), List.takeWhile, decide_eq_false (not_not.mpr rfl)]
  exact List.append_nil s

theorem dropWhile_ne_append (h : d ∉ s) (rest : List Char) :
    (s ++ d :: rest).dropWhile (fun c => c ≠ d) = d :: rest := by
  rw [List.dropWhile_append_of_pos (all_ne h), List.dropWhile, decide_eq_false (not_not.mpr rfl)]

theorem findIdx_eq_append (h : d ∉ s) (rest : List Char) :
    (s ++ d :: rest).findIdx (fun c => c = d) = s.length := by
  have hnone : s.findIdx (fun c => c = d) = s.length :=
    List.findIdx_eq_length_of_false (fun c hc => decide_eq_false (fun heq => h (heq ▸ hc)))
  rw [List.findIdx_append, hnone, if_neg (Nat.lt_irrefl _), List.findIdx_cons,
    decide_eq_true rfl]
  exact Nat.zero_add _

theorem takeWhile_ne_self (h : d ∉ s) : s.takeWhile (fun c => c ≠ d) = s := by
  have hpos : (s ++ []).takeWhile (fun c => c ≠ d) = s ++ [].takeWhile (fun c => c ≠ d) :=
    List.takeWhile_append_of_pos (all_ne h)
  rw [List.append_nil, List.takeWhile_nil, List.append_nil] at hpos
  exact hpos

end Until

theorem cString_append {s : List Char} (h : nul ∉ s) (rest : List Char) :
    cString (s ++ nul :: rest) = s := takeWhile_ne_append h rest

theorem cString_eq {s : List Char} (h : nul ∉ s) : cString s = s := takeWhile_ne_self h

/-- A string that fits is followed by a NUL in its copy. -/
theorem strncpy_of_lt {n : Nat} {s : List Char} (h : s.length < n) :
    ∃ rest, strncpy n s = s ++ nul :: rest := by
  refine ⟨List.replicate (n - s.length - 1) nul, ?_⟩
  have hn : n - s.length = n - s.length - 1 + 1 := by omega
  unfold strncpy
  rw [List.take_of_length_le (by omega), hn, List.replicate_succ, Nat.add_sub_cancel]

/-! ## Lines -/

theorem readLine_line {line : List Char} (h : '\n' ∉ line) (rest : List Char) :
    ∀ {n : Nat}, line.length < n → readLine n (line ++ '\n' :: rest) = (line ++ ['\n'], rest) := by
  induction line with
  | nil =>
      intro n hn
      cases n with
      | zero => exact absurd hn (Nat.not_lt_zero _)
      | succ n => rfl
  | cons c line ih =>
      intro n hn
      have hc : c ≠ '\n' := fun heq => h (heq ▸ List.mem_cons_self)
      cases n with
      | zero => exact absurd hn (Nat.not_lt_zero _)
      | succ n =>
          rw [List.length_cons] at hn
          rw [List.cons_append, readLine, if_neg hc,
            ih (fun hmem => h (List.mem_cons_of_mem c hmem)) (by omega)]
          rfl

/-- A line that is short enough is read as a whole. -/
theorem fgets_line {line : List Char} (h : '\n' ∉ line) {size : Nat}
    (hlen : line.length + 1 < size) (rest : List Char) :
    fgets size (line ++ '\n' :: rest) = some (line ++ ['\n'], rest) := by
  unfold fgets
  rw [if_neg (by simp only [List.append_eq_nil_iff, reduceCtorEq, and_false, not_false_eq_true]),
    readLine_line h rest (by omega)]

theorem length_readLine (n : Nat) (text : List Char) :
    (readLine n text).1.length + (readLine n text).2.length = text.length := by
  fun_induction readLine n text with
  | case1 text => rw [List.length_nil, Nat.zero_add]
  | case2 n => rfl
  | case3 n text =>
      simp only [List.length_cons, List.length_nil]
      omega
  | case4 n c text hc line rest heq ih =>
      simp only [List.length_cons, heq] at ih ⊢
      omega

theorem readLine_ne_nil {n : Nat} (hn : 0 < n) {text : List Char} (h : text ≠ []) :
    (readLine n text).1 ≠ [] := by
  cases n with
  | zero => exact absurd hn (Nat.lt_irrefl 0)
  | succ n =>
      cases text with
      | nil => exact absurd rfl h
      | cons c text =>
          rw [readLine]
          by_cases hc : c = '\n'
          · rw [if_pos hc]
            exact List.cons_ne_nil _ _
          · rw [if_neg hc]
            exact List.cons_ne_nil _ _

/-- Reading a line makes the text shorter. -/
theorem fgets_shorter {size : Nat} (hsize : 1 < size) {text buf rest : List Char}
    (h : fgets size text = some (buf, rest)) : rest.length < text.length := by
  unfold fgets at h
  by_cases hnil : text = []
  · rw [if_pos hnil] at h
    exact absurd h (by simp only [reduceCtorEq, not_false_eq_true])
  · rw [if_neg hnil, Option.some.injEq] at h
    have hlen := length_readLine (size - 1) text
    have hpos := List.length_pos_iff.mpr (readLine_ne_nil (n := size - 1) (by omega) hnil)
    rw [h] at hlen hpos
    simp only at hlen hpos
    omega

/-! ## Searching and splitting -/

theorem strstr_isSome_iff (needle s : List Char) :
    (strstr needle s).isSome = true ↔ needle <:+: s := by
  induction s with
  | nil =>
      rw [strstr, List.infix_nil]
      by_cases h : needle = []
      · rw [if_pos h]
        exact ⟨fun _ => h, fun _ => rfl⟩
      · rw [if_neg h]
        exact ⟨fun hnone => absurd hnone Bool.false_ne_true, fun hnil => absurd hnil h⟩
  | cons c s ih =>
      rw [strstr, List.infix_cons_iff, ← ih, ← List.isPrefixOf_iff_prefix]
      by_cases h : needle.isPrefixOf (c :: s) = true
      · rw [if_pos h]
        exact ⟨fun _ => Or.inl h, fun _ => rfl⟩
      · rw [if_neg h]
        exact ⟨Or.inr, fun hor => hor.resolve_left h⟩

/-- Text in front of which the first character does not occur. -/
theorem infix_append_left {c : Char} {needle pre s : List Char} (h : c ∉ pre) :
    c :: needle <:+: pre ++ s ↔ c :: needle <:+: s := by
  constructor
  · intro hin
    -- An occurrence that starts in the front would start with a character of it.
    rcases List.infix_append_iff.mp hin with hpre | hs | ⟨l₁, l₂, heq, hl₁, hl₂⟩
    · exact absurd (hpre.subset List.mem_cons_self) h
    · exact hs
    · cases l₁ with
      | nil =>
          rw [heq]
          exact hl₂.isInfix
      | cons d l₁ =>
          rw [List.cons_append, List.cons.injEq] at heq
          exact absurd (hl₁.subset (heq.1 ▸ List.mem_cons_self)) h
  · exact fun hin => hin.trans (List.suffix_append pre s).isInfix

/-- Text behind it that shares no character. -/
theorem infix_append_right {needle s post : List Char} (h : ∀ c ∈ post, c ∉ needle) :
    needle <:+: s ++ post ↔ needle <:+: s := by
  have hnil : ∀ l : List Char, (∀ c ∈ l, c ∈ post) → (∀ c ∈ l, c ∈ needle) → l = [] := by
    intro l hpost hneedle
    cases l with
    | nil => rfl
    | cons c l =>
        exact absurd (hneedle c List.mem_cons_self) (h c (hpost c List.mem_cons_self))
  constructor
  · intro hin
    -- Only the empty string has all its characters on both sides.
    rcases List.infix_append_iff.mp hin with hs | hpost | ⟨l₁, l₂, rfl, hl₁, hl₂⟩
    · exact hs
    · rw [hnil needle (fun c hc => hpost.subset hc) (fun c hc => hc)]
      exact List.nil_infix
    · rw [hnil l₂ (fun c hc => hl₂.subset hc) (fun c hc => List.mem_append_right l₁ hc),
        List.append_nil]
      exact hl₁.isInfix
  · exact fun hin => hin.trans (List.prefix_append s post).isInfix

/-- A token ends at the delimiter behind it. -/
theorem strtok_append {delim : Char} {token : List Char} (hne : token ≠ [])
    (h : delim ∉ token) (rest : List Char) :
    strtok delim (token ++ delim :: rest) = some (token, rest) := by
  cases token with
  | nil => exact absurd rfl hne
  | cons c token =>
      have hc : c ≠ delim := fun heq => h (heq ▸ List.mem_cons_self)
      unfold strtok
      rw [List.cons_append, List.dropWhile_cons_of_neg (by simp only [decide_eq_true_eq, hc,
        not_false_eq_true])]
      simp only
      rw [← List.cons_append, takeWhile_ne_append h, dropWhile_ne_append h]
      rfl

/-! ## Numbers -/

section Numbers

variable {base : Nat}

theorem digitValue_digitChar (hbase : base ≤ 16) {d : Nat} (hd : d < base) :
    digitValue base d.digitChar = some d := by
  have hvalue : ∀ d < 16, charValue d.digitChar = some d := by decide
  unfold digitValue
  rw [hvalue d (by omega)]
  simp only [if_pos hd]

theorem readDigits_digitChar (hbase : base ≤ 16) {d : Nat} (hd : d < base) (acc : Nat)
    (s : List Char) :
    readDigits base acc (d.digitChar :: s) = readDigits base (acc * base + d) s := by
  rw [readDigits, digitValue_digitChar hbase hd]

/-- The induction is on the number, without its last digit. -/
theorem readDigits_toDigits (hpos : 1 < base) (hbase : base ≤ 16) (s : List Char) (n : Nat) :
    readDigits base 0 (Nat.toDigits base n ++ s) = readDigits base n s := by
  induction n using Nat.strongRecOn generalizing s with
  | ind n ih =>
      -- One digit, or a number with fewer digits and one more.
      by_cases hn : n < base
      · rw [Nat.toDigits_of_lt_base hn, List.singleton_append, readDigits_digitChar hbase hn,
          Nat.zero_mul, Nat.zero_add]
      · have hmod : n % base < base := Nat.mod_lt n (by omega)
        have hdiv : n / base < n := Nat.div_lt_self (by omega) hpos
        rw [Nat.toDigits_of_base_le hpos (by omega), List.append_assoc, ih _ hdiv,
          List.singleton_append, readDigits_digitChar hbase hmod, Nat.div_add_mod']

theorem readDigits_zeros (hpos : 1 < base) (hbase : base ≤ 16) (k : Nat) (s : List Char) :
    readDigits base 0 (List.replicate k '0' ++ s) = readDigits base 0 s := by
  induction k with
  | zero => rfl
  | succ k ih =>
      have hzero : ('0' : Char) = Nat.digitChar 0 := rfl
      rw [List.replicate_succ, List.cons_append, hzero, readDigits_digitChar hbase (by omega),
        Nat.zero_mul]
      exact ih

theorem readDigits_printNat (hpos : 1 < base) (hbase : base ≤ 16) (width n : Nat)
    (s : List Char) : readDigits base 0 (printNat base width n ++ s) = readDigits base n s := by
  unfold printNat List.leftpad
  rw [List.append_assoc, readDigits_zeros hpos hbase, readDigits_toDigits hpos hbase]

theorem mem_toDigits (hpos : 1 < base) {c : Char} (n : Nat) (h : c ∈ Nat.toDigits base n) :
    ∃ d < base, c = d.digitChar := by
  induction n using Nat.strongRecOn with
  | ind n ih =>
      by_cases hn : n < base
      · rw [Nat.toDigits_of_lt_base hn, List.mem_singleton] at h
        exact ⟨n, hn, h⟩
      · rw [Nat.toDigits_of_base_le hpos (by omega), List.mem_append, List.mem_singleton] at h
        rcases h with h | rfl
        · exact ih _ (Nat.div_lt_self (by omega) hpos) h
        · exact ⟨n % base, Nat.mod_lt n (by omega), rfl⟩

theorem mem_printNat (hpos : 1 < base) {width n : Nat} {c : Char}
    (h : c ∈ printNat base width n) : ∃ d < base, c = d.digitChar := by
  unfold printNat List.leftpad at h
  rcases List.mem_append.mp h with h | h
  · exact ⟨0, by omega, (List.mem_replicate.mp h).2⟩
  · exact mem_toDigits hpos n h

/-- Characters that printed numbers do not contain. -/
theorem not_mem_printNat (hpos : 1 < base) (hbase : base ≤ 16) {c : Char}
    (hc : ∀ d < 16, c ≠ Nat.digitChar d) (width n : Nat) : c ∉ printNat base width n := by
  intro h
  rcases mem_printNat hpos h with ⟨d, hd, heq⟩
  exact hc d (by omega) heq

theorem printNat_ne_nil (base width n : Nat) : printNat base width n ≠ [] := by
  unfold printNat List.leftpad
  exact List.append_ne_nil_of_right_ne_nil _ Nat.toDigits_ne_nil

theorem length_printNat_le (hpos : 1 < base) {k width n : Nat} (hk : 0 < k) (hwidth : width ≤ k)
    (hn : n < base ^ k) : (printNat base width n).length ≤ k := by
  have hdigits := (Nat.length_toDigits_le_iff hpos hk).mpr hn
  unfold printNat
  rw [List.length_leftpad]
  omega

theorem strtol_digit {c : Char} (hc : ∃ d < 16, c = Nat.digitChar d) (s : List Char) :
    strtol 16 (c :: s) = clampLong (readDigits 16 0 (skipPrefix 16 (c :: s))) := by
  have hspace : ∀ d < 16, isspace (Nat.digitChar d) = false := by decide
  have hminus : ∀ d < 16, Nat.digitChar d ≠ '-' := by decide
  have hplus : ∀ d < 16, Nat.digitChar d ≠ '+' := by decide
  rcases hc with ⟨d, hd, rfl⟩
  unfold strtol
  rw [List.dropWhile_cons_of_neg (by rw [hspace d hd]; exact Bool.false_ne_true)]
  split
  · rename_i heq
    rw [List.cons.injEq] at heq
    exact absurd heq.1 (hminus d hd)
  · rename_i heq
    rw [List.cons.injEq] at heq
    exact absurd heq.1 (hplus d hd)
  · rfl

theorem skipPrefix_eq {base : Nat} {s : List Char} (hx : 'x' ∉ s) (hX : 'X' ∉ s) :
    skipPrefix base s = s := by
  unfold skipPrefix
  split
  · rename_i c s
    rw [if_neg]
    rintro ⟨_, rfl | rfl⟩
    · exact hx (List.mem_cons_of_mem _ List.mem_cons_self)
    · exact hX (List.mem_cons_of_mem _ List.mem_cons_self)
  · rfl

/-- Reading inverts printing, for the numbers a `long` can hold. -/
theorem strtol_printNat (width : Nat) {n : Nat} (hn : n < 2 ^ 63) :
    strtol 16 (printNat 16 width n) = n := by
  have hx : 'x' ∉ printNat 16 width n :=
    not_mem_printNat (by decide) (Nat.le_refl 16) (by decide) width n
  have hX : 'X' ∉ printNat 16 width n :=
    not_mem_printNat (by decide) (Nat.le_refl 16) (by decide) width n
  have hread := readDigits_printNat (by decide) (Nat.le_refl 16) width n []
  rw [List.append_nil, readDigits] at hread
  cases hp : printNat 16 width n with
  | nil => exact absurd hp (printNat_ne_nil 16 width n)
  | cons c s =>
      have hc : c ∈ printNat 16 width n := hp ▸ List.mem_cons_self
      rw [hp] at hx hX hread
      rw [strtol_digit (mem_printNat (by decide) hc), skipPrefix_eq hx hX, hread]
      unfold clampLong
      omega

/-- What `strtol` returns is a `long`. -/
theorem strtol_range (base : Nat) (s : List Char) :
    -(2 ^ 63) ≤ strtol base s ∧ strtol base s < 2 ^ 63 := by
  have hclamp : ∀ n, -(2 ^ 63) ≤ clampLong n ∧ clampLong n < 2 ^ 63 := by
    intro n
    unfold clampLong
    omega
  unfold strtol
  split <;> exact hclamp _

end Numbers

end Vpoline
