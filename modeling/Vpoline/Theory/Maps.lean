import Vpoline.Core.Maps
import Vpoline.Lib.Ends

/-!
# The Memory Map Is Read Back

The loop of `rewrite_code` goes through the lines of a text, and whatever it
does besides parsing it does with the arguments that it has parsed.
`rewriteLines_rule` is the rule for it: an invariant that is indexed by the
arguments that are left. The induction over the lines is there and nowhere
else.

For a text that the kernel has printed the arguments are known. The parser
inverts the format: it finds the executable mappings of libc, in order, and
takes the right addresses and protection from each of their lines.

A line goes through the parser token by token. The range of addresses and the
flags contain no space, so `strtok` returns them as they are. The range is at
most 33 characters long and fits into its copy, and its only dash is between
the numbers, each of which is ended by a NUL when `strtol` reads it. The rest
of the line is looked at by `strstr` alone. Nothing before the path contains
the letter `l`, so `libc.so.6` is found in the line exactly if it is in the
path.

## Main definitions

* `lineArgs`, `textArgs`: What a line and a text are rewritten with.
* `Recorder.Keeps`: Calls do not matter to a property.

## Theorems

* `parseRange_range`: The addresses are read back.
* `memProtOf_flags`: So is the protection.
* `strstr_line`: The search sees the path only.
* `rewriteLines_rule`: The rule for the loop.
* `rewriteLines_eq`: The loop without its calls.
* `textArgs_printMaps`: What a printed text is rewritten with.
* `rewriteCode_printMaps`: The parser inverts the format.
-/

namespace Vpoline

/-! ## A line, field by field -/

namespace MapsEntry

variable (e : MapsEntry)

/-- Characters that neither numbers nor the signs around them contain. -/
theorem not_mem_printNat_hex {c : Char} (hc : ∀ d < 16, c ≠ Nat.digitChar d) (width n : Nat) :
    c ∉ printNat 16 width n := not_mem_printNat (by decide) (Nat.le_refl 16) hc width n

theorem not_mem_range {c : Char} (hc : ∀ d < 16, c ≠ Nat.digitChar d) (hdash : c ≠ '-') :
    c ∉ e.range := by
  unfold range
  rw [List.mem_append, List.mem_cons]
  rintro (h | h | h)
  · exact not_mem_printNat_hex hc _ _ h
  · exact hdash h
  · exact not_mem_printNat_hex hc _ _ h

theorem not_mem_flags {c : Char} (hc : c ∉ ['r', 'w', 'x', 's', 'p', '-']) : c ∉ e.flags := by
  intro h
  unfold flags at h
  simp only [List.mem_cons, List.not_mem_nil, or_false, not_or] at h hc
  rcases hc with ⟨hr, hw, hx, hs, hp, hdash⟩
  rcases h with h | h | h | h
  · split at h
    · exact hr h
    · exact hdash h
  · split at h
    · exact hw h
    · exact hdash h
  · split at h
    · exact hx h
    · exact hdash h
  · split at h
    · exact hs h
    · exact hp h

theorem not_mem_details {c : Char} (hc : ∀ d < 16, c ≠ Nat.digitChar d) (hspace : c ≠ ' ')
    (hcolon : c ≠ ':') : c ∉ e.details := by
  have hdec : c ∉ printNat 10 1 e.inode := not_mem_printNat (by decide) (by decide) hc _ _
  unfold details
  simp only [List.mem_append, List.mem_cons]
  rintro (h | h | h | h | h | h | h | h | h)
  · exact not_mem_printNat_hex hc _ _ h
  · exact hspace h
  · exact not_mem_printNat_hex hc _ _ h
  · exact hcolon h
  · exact not_mem_printNat_hex hc _ _ h
  · exact hspace h
  · exact hdec h
  · exact hspace h
  · exact hspace (List.mem_replicate.mp h).2

/-- The line up to the path, and the path. -/
theorem line_eq : e.line = (e.range ++ ' ' :: (e.flags ++ ' ' :: e.details)) ++ e.path := by
  unfold line
  simp only [List.append_assoc, List.cons_append]

/-- Characters that the line does not contain before the path. -/
theorem not_mem_head {c : Char} (hc : ∀ d < 16, c ≠ Nat.digitChar d)
    (hsign : c ∉ ['-', ' ', ':', 'r', 'w', 'x', 's', 'p']) :
    c ∉ e.range ++ ' ' :: (e.flags ++ ' ' :: e.details) := by
  simp only [List.mem_cons, List.not_mem_nil, or_false, not_or] at hsign
  rcases hsign with ⟨hdash, hspace, hcolon, hr, hw, hx, hs, hp⟩
  have hflags : c ∉ e.flags := by
    refine e.not_mem_flags ?_
    simp only [List.mem_cons, List.not_mem_nil, or_false, not_or]
    exact ⟨hr, hw, hx, hs, hp, hdash⟩
  simp only [List.mem_append, List.mem_cons]
  rintro (h | h | h | h | h)
  · exact e.not_mem_range hc hdash h
  · exact hspace h
  · exact hflags h
  · exact hspace h
  · exact e.not_mem_details hc hspace hcolon h

theorem range_ne_nil : e.range ≠ [] :=
  List.append_ne_nil_of_left_ne_nil (printNat_ne_nil 16 8 e.fromAddr) _

/-- The flags are read back. -/
theorem memProtOf_flags : memProtOf e.flags = ⟨e.read, e.write, e.exec⟩ := by
  rcases e with ⟨_, _, r, w, x, sh, _, _, _, _, _, _⟩
  cases r <;> cases w <;> cases x <;> cases sh <;> rfl

end MapsEntry

namespace Mapping

variable (m : Mapping)

theorem length_range_lt : m.range.length < 64 := by
  have hlt := m.lt
  have hfits := m.fits
  have hpow : (2 : Nat) ^ 63 < 16 ^ 16 := by decide
  have hfrom : (printNat 16 8 m.fromAddr).length ≤ 16 :=
    length_printNat_le (by decide) (by decide) (by decide) (by omega)
  have hto : (printNat 16 8 m.toAddr).length ≤ 16 :=
    length_printNat_le (by decide) (by decide) (by decide) (by omega)
  unfold MapsEntry.range
  rw [List.length_append, List.length_cons]
  omega

/-- The addresses are read back. The copy of the range is cut at its dash, and
    both halves are followed by a NUL. -/
theorem parseRange_range :
    parseRange (addrBuffer m.range) = ((m.fromAddr : Int), (m.toAddr : Int)) := by
  have hlt := m.lt
  have hfits := m.fits
  have hnul : ∀ n, nul ∉ printNat 16 8 n :=
    fun n => MapsEntry.not_mem_printNat_hex (by decide) 8 n
  have hdash : '-' ∉ printNat 16 8 m.fromAddr := MapsEntry.not_mem_printNat_hex (by decide) 8 _
  rcases strncpy_of_lt m.length_range_lt with ⟨rest, hcopy⟩
  have haddr : addrBuffer m.range = printNat 16 8 m.fromAddr ++
      '-' :: (printNat 16 8 m.toAddr ++ nul :: (rest ++ [nul])) := by
    unfold addrBuffer
    rw [hcopy, MapsEntry.range]
    simp only [List.append_assoc, List.cons_append]
  -- The first dash is behind the first number.
  have hk : dashIndex (addrBuffer m.range) = (printNat 16 8 m.fromAddr).length := by
    unfold dashIndex addrBuffer
    rw [hcopy, List.append_assoc, List.cons_append,
      cString_append (m.not_mem_range (by decide) (by decide)), MapsEntry.range,
      findIdx_eq_append hdash]
  -- Cutting there leaves two strings.
  have hcut : (addrBuffer m.range).set (printNat 16 8 m.fromAddr).length nul
      = printNat 16 8 m.fromAddr ++ nul :: (printNat 16 8 m.toAddr ++ nul :: (rest ++ [nul])) := by
    rw [haddr, List.set_append_right _ _ (Nat.le_refl _), Nat.sub_self, List.set_cons_zero]
  unfold parseRange
  simp only [hk, hcut]
  rw [cString_append (hnul _), List.drop_length_add_append, List.drop_succ_cons, List.drop_zero,
    cString_append (hnul _), strtol_printNat 8 (by omega), strtol_printNat 8 hfits]

/-- What is read by `fgets`, without a NUL in it. -/
theorem nul_not_mem_line : nul ∉ m.line ++ ['\n'] := by
  rw [m.line_eq, List.mem_append, List.mem_append, List.mem_singleton]
  rintro ((h | h) | h)
  · exact m.not_mem_head (by decide) (by decide) h
  · exact m.nul_free h
  · exact absurd h (by decide)

theorem newline_not_mem_line : '\n' ∉ m.line := by
  rw [m.line_eq, List.mem_append]
  rintro (h | h)
  · exact m.not_mem_head (by decide) (by decide) h
  · exact m.newline_free h

/-- The search sees the path only. -/
theorem strstr_line :
    (strstr libcName (m.line ++ ['\n'])).isSome = true ↔ libcName <:+: m.path := by
  have hend : ∀ c ∈ ['\n'], c ∉ libcName := by
    intro c hc
    rw [List.mem_singleton.mp hc]
    decide
  rw [strstr_isSome_iff, infix_append_right hend, m.line_eq]
  exact infix_append_left (m.not_mem_head (by decide) (by decide))

end Mapping

/-! ## The loop -/

/-- What a line is rewritten with, if it is. -/
def lineArgs (buf : List Char) : Option RewriteArgs :=
  match strstr libcName (cString buf), strtok ' ' (cString buf) with
  | some _, some (c, rest) =>
      match strtok ' ' rest with
      | none => none
      | some (flags, _) =>
          let range := parseRange (addrBuffer c)
          if (memProtOf flags).exec = true ∧ range.1 ≠ 0 then
            some ⟨BitVec.ofInt 64 range.1, BitVec.ofInt 64 range.2 - BitVec.ofInt 64 range.1,
              memProtOf flags⟩
          else none
  | _, _ => none

/-- What a text is rewritten with. -/
def textArgs (text : List Char) : List RewriteArgs := (readLines text).filterMap lineArgs

/-- Calls do not matter to a property. -/
structure Recorder.Keeps {σ ε : Type} (recorder : Recorder σ ε) (P : σ → Prop) : Prop where
  call : ∀ fns s, P s → P (recorder.call fns s)
  debugCall : ∀ fns s, P s → P (recorder.debugCall fns s)

/-- An address that is read is zero if and only if the number is. -/
theorem ofInt_strtol_eq_zero_iff (t : List Char) :
    BitVec.ofInt 64 (strtol 16 t) = 0 ↔ strtol 16 t = 0 := by
  have hrange := strtol_range 16 t
  constructor
  · intro h
    have htoInt := congrArg BitVec.toInt h
    rw [BitVec.toInt_ofInt_eq_self (by decide) (by omega) (by omega)] at htoInt
    exact htoInt
  · intro h
    rw [h]
    rfl

/-- Nothing is rewritten at address zero. -/
theorem lineArgs_nonzero {buf : List Char} {args : RewriteArgs} (h : lineArgs buf = some args) :
    args.code ≠ 0 := by
  unfold lineArgs at h
  split at h
  · split at h
    · exact absurd h (by simp only [reduceCtorEq, not_false_eq_true])
    · simp only at h
      split at h
      · rename_i hif
        rcases Option.some.inj h with rfl
        exact fun hzero => hif.2 ((ofInt_strtol_eq_zero_iff _).mp hzero)
      · exact absurd h (by simp only [reduceCtorEq, not_false_eq_true])
  · exact absurd h (by simp only [reduceCtorEq, not_false_eq_true])

theorem textArgs_nonzero {text : List Char} {args : RewriteArgs} (h : args ∈ textArgs text) :
    args.code ≠ 0 := by
  rcases List.mem_filterMap.mp h with ⟨buf, _, hbuf⟩
  exact lineArgs_nonzero hbuf

section Rule

variable {σ ε : Type} {recorder : Recorder σ ε}
  {rewrite : Addr → BitVec 64 → Prot → σ → Except ε σ}
  {P : List RewriteArgs → σ → Prop} {Q : ε → Prop}

/-- The body of the loop: the arguments of the line are used up. -/
theorem rewriteLine_rule (hkeeps : ∀ args, recorder.Keeps (P args))
    (hrewrite : ∀ args rest s, P (args :: rest) s →
      EndsIn (P rest) Q (rewrite args.code args.codeSize args.memProt s))
    {buf : List Char} {rest : List RewriteArgs} {s : σ}
    (h : P ((lineArgs buf).toList ++ rest) s) :
    EndsIn (P rest) Q (recorder.rewriteLine rewrite buf s) := by
  have hcall : ∀ {args} fns {s}, P args s → P args (recorder.call fns s) :=
    fun fns s hs => (hkeeps _).call fns s hs
  have hread := hcall [.strstr] ((hkeeps _).debugCall [.strlen, .write] s h)
  unfold Recorder.rewriteLine
  unfold lineArgs at hread
  cases hstr : strstr libcName (cString buf) with
  | none =>
      simp only [hstr] at hread ⊢
      exact hread
  | some found =>
      cases htok : strtok ' ' (cString buf) with
      | none =>
          simp only [hstr, htok] at hread ⊢
          exact hcall _ hread
      | some token =>
          cases hflags : strtok ' ' token.2 with
          | none =>
              simp only [hstr, htok, hflags] at hread ⊢
              exact hcall _ (hcall _ hread)
          | some token' =>
              -- Both tokens are there, and flags and address decide.
              simp only [hstr, htok, hflags] at hread ⊢
              by_cases hx : (memProtOf token'.1).exec = true
              · by_cases hzero : (parseRange (addrBuffer token.1)).1 = 0
                · rw [if_neg (fun hboth => hboth.2 hzero)] at hread
                  rw [if_pos hx, if_pos hzero]
                  exact hcall _ (hcall _ (hcall _ (hcall _ hread)))
                · rw [if_pos ⟨hx, hzero⟩] at hread
                  rw [if_pos hx, if_neg hzero]
                  exact hrewrite ⟨_, _, _⟩ rest _
                    (hcall _ (hcall _ (hcall _ (hcall _ (hcall _ hread)))))
              · rw [if_neg (fun hboth => hx hboth.1)] at hread
                rw [if_neg hx]
                exact hcall _ (hcall _ (hcall _ hread))

/-- The rule for the loop of `rewrite_code`. The induction is on the lines. -/
theorem rewriteLines_rule (hkeeps : ∀ args, recorder.Keeps (P args))
    (hrewrite : ∀ args rest s, P (args :: rest) s →
      EndsIn (P rest) Q (rewrite args.code args.codeSize args.memProt s))
    {text : List Char} {s : σ} (h : P (textArgs text) s) :
    EndsIn (P []) Q (recorder.rewriteLines rewrite text s) := by
  unfold textArgs at h
  fun_induction readLines text generalizing s with
  | case1 text hnone =>
      rw [Recorder.rewriteLines]
      split
      · exact (hkeeps _).call _ _ h
      · rename_i heq
        rw [hnone] at heq
        exact absurd heq (by simp only [reduceCtorEq, not_false_eq_true])
  | case2 text buf rest hsome ih =>
      have hline : P ((lineArgs buf).toList ++ (readLines rest).filterMap lineArgs) s := by
        rw [List.filterMap_cons] at h
        cases hargs : lineArgs buf with
        | none =>
            rw [hargs] at h
            exact h
        | some args =>
            rw [hargs] at h
            exact h
      rw [Recorder.rewriteLines]
      split
      · rename_i heq
        rw [hsome] at heq
        exact absurd heq (by simp only [reduceCtorEq, not_false_eq_true])
      · rename_i buf' rest' heq
        rw [hsome, Option.some.injEq, Prod.mk.injEq] at heq
        rcases heq with ⟨rfl, rfl⟩
        have hbody := rewriteLine_rule hkeeps hrewrite ((hkeeps _).call [.fgets] s hline)
        cases hrun : recorder.rewriteLine rewrite buf (recorder.call [.fgets] s) with
        | error e =>
            rw [hrun] at hbody
            exact hbody
        | ok s' =>
            rw [hrun] at hbody
            exact ih hbody

end Rule

/-- The loop without its calls: the arguments, one after the other. -/
theorem rewriteLines_eq {σ : Type} (rewrite : Addr → BitVec 64 → Prot → σ → Except Stop σ)
    (text : List Char) (s : σ) :
    rewriteLines rewrite text s = (textArgs text).foldlM
      (fun s args => rewrite args.code args.codeSize args.memProt s) s := by
  have hrule := @rewriteLines_rule σ Stop (Recorder.silent σ) rewrite
    -- What is left of the fold has the result of the whole.
    (fun args t => args.foldlM (fun s args => rewrite args.code args.codeSize args.memProt s) t
      = (textArgs text).foldlM (fun s args => rewrite args.code args.codeSize args.memProt s) s)
    (fun stop => (textArgs text).foldlM
      (fun s args => rewrite args.code args.codeSize args.memProt s) s = .error stop)
    (fun args => ⟨fun _ _ h => h, fun _ _ h => h⟩) (fun args rest t h => ?_) text s rfl
  · unfold rewriteLines
    cases hrun : (Recorder.silent σ).rewriteLines rewrite text s with
    | error stop =>
        rw [hrun] at hrule
        exact Eq.symm hrule
    | ok s' =>
        rw [hrun] at hrule
        exact hrule
  · rw [List.foldlM_cons] at h
    cases hrun : rewrite args.code args.codeSize args.memProt t with
    | error stop =>
        rw [hrun] at h
        exact h.symm
    | ok t' =>
        rw [hrun] at h
        exact h

/-- `rewrite_code` without its calls is the loop. -/
theorem rewriteCode_ok {σ : Type} (rewrite : Addr → BitVec 64 → Prot → σ → Except Stop σ)
    (text : List Char) (s : σ) :
    rewriteCode rewrite (.ok text) s = rewriteLines rewrite text s := by
  unfold rewriteCode rewriteLines Recorder.rewriteCode
  simp only [Recorder.silent_call, Recorder.silent_debugCall]
  cases (Recorder.silent σ).rewriteLines rewrite text s with
  | error stop => rfl
  | ok s' => rfl

/-! ## A text that the kernel printed -/

/-- The arguments, from the numbers that were read. -/
theorem ofInt_range (m : Mapping) :
    BitVec.ofInt 64 (m.fromAddr : Int) = m.rewriteArgs.code ∧
    BitVec.ofInt 64 (m.toAddr : Int) - BitVec.ofInt 64 (m.fromAddr : Int)
      = m.rewriteArgs.codeSize := by
  have hlt := m.lt
  have hfits := m.fits
  unfold Mapping.rewriteArgs
  rw [BitVec.ofInt_natCast, BitVec.ofInt_natCast]
  refine ⟨rfl, ?_⟩
  bv_omega

/-- What a line that the kernel printed is rewritten with. -/
theorem lineArgs_line (m : Mapping) :
    lineArgs (m.line ++ ['\n']) = if m.isRewritten then some m.rewriteArgs else none := by
  have hstr := cString_eq m.nul_not_mem_line
  have hrange : strtok ' ' (m.line ++ ['\n'])
      = some (m.range, m.flags ++ ' ' :: (m.details ++ m.path ++ ['\n'])) := by
    unfold MapsEntry.line
    rw [List.append_assoc, List.cons_append]
    rw [strtok_append m.range_ne_nil (m.not_mem_range (by decide) (by decide))]
    simp only [List.append_assoc, List.cons_append]
  have hflags : strtok ' ' (m.flags ++ ' ' :: (m.details ++ m.path ++ ['\n']))
      = some (m.flags, m.details ++ m.path ++ ['\n']) :=
    strtok_append (List.cons_ne_nil _ _) (m.not_mem_flags (by decide)) _
  have hargs := ofInt_range m
  unfold lineArgs Mapping.isRewritten
  rw [hstr]
  by_cases hlibc : libcName <:+: m.path
  · -- The line passes the search, and flags and address decide.
    rcases Option.isSome_iff_exists.mp (m.strstr_line.mpr hlibc) with ⟨found, hfound⟩
    simp only [hfound, hrange, hflags, m.memProtOf_flags, m.parseRange_range, hlibc, decide_true,
      Bool.true_and, Bool.and_eq_true, decide_eq_true_eq, hargs.1, ne_eq, Int.natCast_eq_zero]
    rw [← hargs.1, hargs.2, hargs.1]
    rfl
  · have hnone : strstr libcName (m.line ++ ['\n']) = none := by
      rw [← Option.not_isSome_iff_eq_none, m.strstr_line]
      exact hlibc
    simp only [hnone, hlibc, decide_false, Bool.false_and, Bool.false_eq_true, if_false]

/-- The first line of the file, and the rest of it. -/
theorem fgets_printMaps (m : Mapping) (ms : List Mapping) :
    fgets 4096 (printMaps (m :: ms)) = some (m.line ++ ['\n'], printMaps ms) := by
  have hshort := m.short
  have htext : printMaps (m :: ms) = m.line ++ '\n' :: printMaps ms := by
    unfold printMaps
    rw [List.flatMap_cons, List.append_assoc]
    rfl
  rw [htext, fgets_line m.newline_not_mem_line (by omega)]

/-- The lines are read as they were printed. -/
theorem readLines_printMaps (ms : List Mapping) :
    readLines (printMaps ms) = ms.map (fun m => m.line ++ ['\n']) := by
  induction ms with
  | nil =>
      rw [readLines]
      split
      · rfl
      · rename_i heq
        exact absurd heq (by
          simp only [show fgets 4096 (printMaps []) = none from rfl, reduceCtorEq,
            not_false_eq_true])
  | cons m ms ih =>
      rw [readLines]
      split
      · rename_i heq
        rw [fgets_printMaps] at heq
        exact absurd heq (by simp only [reduceCtorEq, not_false_eq_true])
      · rename_i buf rest heq
        rw [fgets_printMaps, Option.some.injEq, Prod.mk.injEq] at heq
        rcases heq with ⟨rfl, rfl⟩
        rw [ih, List.map_cons]

/-- What the file is rewritten with: the executable mappings of libc. -/
theorem textArgs_printMaps (ms : List Mapping) :
    textArgs (printMaps ms) = (ms.filter Mapping.isRewritten).map Mapping.rewriteArgs := by
  rw [textArgs, readLines_printMaps, List.filterMap_map]
  induction ms with
  | nil => rfl
  | cons m ms ih =>
      rw [List.filterMap_cons, Function.comp_apply, lineArgs_line, List.filter_cons, ih]
      by_cases hm : m.isRewritten = true
      · rw [if_pos hm, if_pos hm, List.map_cons]
      · rw [if_neg hm, if_neg hm]

/-- The parser inverts the format of the memory map: the executable mappings of
    libc are rewritten, each once and in order, and with their own addresses
    and protection. -/
theorem rewriteCode_printMaps {σ : Type} (rewrite : Addr → BitVec 64 → Prot → σ → Except Stop σ)
    (ms : List Mapping) (s : σ) :
    rewriteCode rewrite (.ok (printMaps ms)) s =
      ((ms.filter Mapping.isRewritten).map Mapping.rewriteArgs).foldlM
        (fun s args => rewrite args.code args.codeSize args.memProt s) s := by
  rw [← textArgs_printMaps, rewriteCode_ok, rewriteLines_eq]

/-- The text of libc in a process. -/
def libcMapping : Mapping where
  fromAddr := 0x3fb7e00000
  toAddr := 0x3fb7f40000
  read := true
  write := false
  exec := true
  shared := false
  offset := 0
  major := 8
  minor := 1
  inode := 1835
  pad := 3
  path := '/' :: libcName
  lt := by decide
  fits := by decide
  newline_free := by decide
  nul_free := by decide
  short := by decide

/-- It is rewritten once, among mappings that are not. -/
theorem rewriteCode_printMaps_libc :
    rewriteCode (fun code codeSize memProt calls => .ok (calls ++ [⟨code, codeSize, memProt⟩]))
        (.ok (printMaps [{ libcMapping with exec := false, short := by decide }, libcMapping])) []
      = .ok [(⟨0x3fb7e00000, 0x140000, ⟨true, false, true⟩⟩ : RewriteArgs)] := by
  rw [rewriteCode_printMaps]
  decide

end Vpoline
