import Vpoline.Core.Disasm

/-!
# A Sweep, and Then the Stores

The loop of `disassemble_and_rewrite` decodes the bytes that it is changing.
It only stores behind the position it goes on from, so what it does is decided
by the bytes it starts with: it follows a sweep that only reads.

`rewriteLoop_follow` says so, for every kind of effects the loop can have. This
is the only induction over the loop, and its induction is over the bytes that
are left. Everything else about the loop is a statement about the list of
positions that the sweep visits.

## Main definitions

* `WellBehaved`: What the loop needs of a disassembler.
* `readOnlySweep`: The positions of a sweep, with what is reported there.
* `reported`: The positions where an `ecall` is reported.
* `Effects.follow`: Doing at each position what the loop does there.
* `Effects.StoresWord`: Effects whose stores are stores.
* `patchAll`: The stores, on memory alone.
* `advance`, `Reports`: One step of a sweep.
* `sectionEcalls`: What is reported in a section.

## Theorems

* `readOnlySweep_congr`: A sweep depends on the bytes from its start on.
* `rewriteLoop_follow`: The loop follows the sweep.
* `rewriteLoop_eq`: The loop on memory alone.
* `mem_reported_iff`: The sweep as a list and as a relation.
* `reported_apart`: What is reported does not overlap.
* `patchAll_outside`, `patchAll_inside`: The stores, byte by byte.
-/

namespace Vpoline

/-- What the loop needs of a disassembler: an instruction has at least one
    byte and no more than there are, and an `ecall` has four. -/
structure WellBehaved (d : Disassembler) : Prop where
  pos : ∀ bs insn, d bs = some insn → insn.size ≠ 0
  fits : ∀ bs insn, d bs = some insn → insn.size ≤ bs.length
  ecall : ∀ bs insn, d bs = some insn → insn.id = .ecall → insn.size = 4

/-- A sweep from `code` to the end of the section: the positions it visits,
    and whether an `ecall` is reported there. -/
def readOnlySweep (context : InterceptDisasmContext) (m : Mem) (code : Nat) :
    List (Nat × Bool) :=
  if code ≤ context.last then
    match context.handle (bytesFrom m code (context.last - code + 1)) with
    | none => (code, false) :: readOnlySweep context m (code + 1)
    | some insn =>
        -- No well-behaved disassembler answers with an empty instruction.
        if _h : insn.size = 0 then [(code, false)]
        else (code, insn.id == .ecall) :: readOnlySweep context m (code + insn.size)
  else []
termination_by context.last + 1 - code

/-- The positions where an `ecall` is reported. -/
def reported (sweep : List (Nat × Bool)) : List Nat := (sweep.filter (·.2)).map (·.1)

/-- Store `jalr gp, gp, 0` at some positions. -/
def patchAll (m : Mem) (ps : List Nat) : Mem :=
  ps.foldl (fun m p => m.write (BitVec.ofNat 64 p) 4 patchedEcall) m

section Bytes

theorem bytesFrom_congr {m m' : Mem} {p size : Nat}
    (h : ∀ a, p ≤ a → a < p + size → m' (BitVec.ofNat 64 a) = m (BitVec.ofNat 64 a)) :
    bytesFrom m' p size = bytesFrom m p size := by
  refine List.map_congr_left (fun k hk => h _ (Nat.le_add_right p k) ?_)
  exact Nat.add_lt_add_left (List.mem_range.mp hk) p

theorem length_bytesFrom (m : Mem) (p size : Nat) : (bytesFrom m p size).length = size := by
  rw [bytesFrom, List.length_map, List.length_range]

end Bytes

section Sweep

variable {context : InterceptDisasmContext} {m : Mem} {code : Nat}

theorem readOnlySweep_end (hle : ¬ code ≤ context.last) : readOnlySweep context m code = [] := by
  rw [readOnlySweep, if_neg hle]

theorem readOnlySweep_none (hle : code ≤ context.last)
    (hdec : context.handle (bytesFrom m code (context.last - code + 1)) = none) :
    readOnlySweep context m code = (code, false) :: readOnlySweep context m (code + 1) := by
  rw [readOnlySweep, if_pos hle, hdec]

theorem readOnlySweep_some (hd : WellBehaved context.handle) (hle : code ≤ context.last)
    {insn : CsInsn}
    (hdec : context.handle (bytesFrom m code (context.last - code + 1)) = some insn) :
    readOnlySweep context m code
      = (code, insn.id == .ecall) :: readOnlySweep context m (code + insn.size) := by
  rw [readOnlySweep, if_pos hle, hdec]
  simp only [dif_neg (hd.pos _ _ hdec)]

theorem reported_skip (p : Nat) (sweep : List (Nat × Bool)) :
    reported ((p, false) :: sweep) = reported sweep := rfl

theorem reported_take (p : Nat) (sweep : List (Nat × Bool)) :
    reported ((p, true) :: sweep) = p :: reported sweep := rfl

/-- A sweep depends on the bytes from its start on. -/
theorem readOnlySweep_congr {m' : Mem}
    (h : ∀ a, code ≤ a → a ≤ context.last → m' (BitVec.ofNat 64 a) = m (BitVec.ofNat 64 a)) :
    readOnlySweep context m' code = readOnlySweep context m code := by
  have hbytes : ∀ {code : Nat}, code ≤ context.last →
      (∀ a, code ≤ a → a ≤ context.last → m' (BitVec.ofNat 64 a) = m (BitVec.ofNat 64 a)) →
      bytesFrom m' code (context.last - code + 1) = bytesFrom m code (context.last - code + 1) :=
    fun hle h => bytesFrom_congr (fun a ha hlt => h a ha (by omega))
  fun_induction readOnlySweep context m code with
  | case1 code hle hdec ih =>
      rw [readOnlySweep, if_pos hle, hbytes hle h, hdec]
      simp only
      rw [ih (fun a ha => h a (by omega))]
  | case2 code hle insn hdec hzero =>
      rw [readOnlySweep, if_pos hle, hbytes hle h, hdec]
      simp only [dif_pos hzero]
  | case3 code hle insn hdec hzero ih =>
      rw [readOnlySweep, if_pos hle, hbytes hle h, hdec]
      simp only [dif_neg hzero]
      rw [ih (fun a ha => h a (by omega))]
  | case4 code hle => rw [readOnlySweep_end hle]

/-- The rest of a sweep does not see the store before it. -/
theorem readOnlySweep_store (hlast : context.last < 2 ^ 64) (hle : code ≤ context.last) :
    readOnlySweep context (m.write (BitVec.ofNat 64 code) 4 patchedEcall) (code + 4)
      = readOnlySweep context m (code + 4) := by
  refine readOnlySweep_congr (fun a ha hal => ?_)
  exact Mem.write_outside (by bv_omega)

end Sweep

/-! ## The loop -/

section Follow

variable {σ ε : Type} {eff : Effects σ ε}

/-- Each position of a sweep is decoded, and the `ecall`s are replaced. -/
def Effects.follow (eff : Effects σ ε) : List (Nat × Bool) → σ → Except ε σ
  | [], s => .ok s
  | (p, false) :: sweep, s => eff.follow sweep (eff.disasm p s)
  | (p, true) :: sweep, s =>
      match eff.patch p (eff.disasm p s) with
      | .error e => .error e
      | .ok s => eff.follow sweep s

/-- Decoding leaves memory alone, and a store that goes through stores the word
    and nothing else. -/
structure Effects.StoresWord (eff : Effects σ ε) : Prop where
  disasm : ∀ p s, eff.mem (eff.disasm p s) = eff.mem s
  patch : ∀ p s s', eff.patch p s = .ok s' →
    eff.mem s' = (eff.mem s).write (BitVec.ofNat 64 p) 4 patchedEcall

variable {context : InterceptDisasmContext}

/-- The loop follows the sweep of the bytes that it finds. -/
theorem rewriteLoop_follow (heff : eff.StoresWord) (hd : WellBehaved context.handle)
    (hlast : context.last < 2 ^ 64) :
    ∀ (n code : Nat) (s : σ), context.last + 1 - code ≤ n →
    eff.rewriteLoop context code s
      = eff.follow (readOnlySweep context (eff.mem s) code) s := by
  have hdone : ∀ (code : Nat) (s : σ), ¬ code ≤ context.last →
      eff.rewriteLoop context code s
        = eff.follow (readOnlySweep context (eff.mem s) code) s := by
    intro code s hgt
    rw [Effects.rewriteLoop, if_neg hgt, readOnlySweep_end hgt, Effects.follow]
  intro n
  induction n with
  | zero => exact fun code s hn => hdone code s (by omega)
  | succ n ih =>
      intro code s hn
      by_cases hle : code ≤ context.last
      · have hmem := heff.disasm code s
        rw [Effects.rewriteLoop, if_pos hle]
        unfold interceptDisasmNextInstruction
        cases hdec : context.handle (bytesFrom (eff.mem s) code (context.last - code + 1)) with
        | none =>
            -- No instruction: one byte further.
            have hnext := ih (code + 1) (eff.disasm code s) (by omega)
            rw [hmem] at hnext
            rw [readOnlySweep_none hle hdec, Effects.follow]
            exact hnext
        | some insn =>
            have hpos := hd.pos _ _ hdec
            rw [readOnlySweep_some hd hle hdec]
            simp only [if_neg hpos, dif_neg hpos]
            cases hid : insn.id with
            | other =>
                have hnext := ih (code + insn.size) (eff.disasm code s) (by omega)
                rw [hmem] at hnext
                exact hnext
            | ecall =>
                -- The sweep behind the store is that of the bytes before it.
                have h4 : insn.size = 4 := hd.ecall _ _ hdec hid
                simp only [h4, beq_self_eq_true, if_true, Effects.follow]
                cases hstore : eff.patch code (eff.disasm code s) with
                | error e => rfl
                | ok s' =>
                    have hnext := ih (code + 4) s' (by omega)
                    rw [heff.patch _ _ _ hstore, hmem, readOnlySweep_store hlast hle] at hnext
                    exact hnext
      · exact hdone code s hle

theorem memEffects_storesWord : memEffects.StoresWord := by
  refine ⟨fun _ _ => rfl, fun p m m' h => ?_⟩
  rcases Except.ok.inj h with rfl
  rfl

/-- The stores, by induction on the positions. -/
theorem memEffects_follow (sweep : List (Nat × Bool)) (m : Mem) :
    memEffects.follow sweep m = .ok (patchAll m (reported sweep)) := by
  induction sweep generalizing m with
  | nil => rfl
  | cons step sweep ih =>
      rcases step with ⟨p, _ | _⟩
      · exact ih m
      · exact ih (m.write (BitVec.ofNat 64 p) 4 patchedEcall)

/-- The loop terminates normally, and leaves what a read-only sweep followed
    by the stores leaves. -/
theorem rewriteLoop_eq (hd : WellBehaved context.handle) (hlast : context.last < 2 ^ 64)
    (code : Nat) (m : Mem) :
    rewriteLoop context code m
      = .ok (patchAll m (reported (readOnlySweep context m code))) :=
  (rewriteLoop_follow memEffects_storesWord hd hlast _ code m (Nat.le_refl _)).trans
    (memEffects_follow _ m)

end Follow

/-! ## What is reported -/

section Reported

variable (context : InterceptDisasmContext) (m : Mem)

/-- How far the loop goes on from the address `p`. -/
def advance (p : Nat) : Nat :=
  match context.handle (bytesFrom m p (context.last - p + 1)) with
  | none => 1
  | some insn => insn.size

/-- The disassembler reports an `ecall` at `p`. -/
def Reports (p : Nat) : Prop :=
  ∃ insn, context.handle (bytesFrom m p (context.last - p + 1)) = some insn ∧ insn.id = .ecall

variable {context m} {code : Nat}

/-- One step of the sweep, whatever the disassembler answers. -/
theorem readOnlySweep_step (hd : WellBehaved context.handle) (hle : code ≤ context.last) :
    ∃ b, (b = true ↔ Reports context m code) ∧ readOnlySweep context m code
      = (code, b) :: readOnlySweep context m (code + advance context m code) := by
  unfold Reports advance
  cases hdec : context.handle (bytesFrom m code (context.last - code + 1)) with
  | none =>
      refine ⟨false, ?_, readOnlySweep_none hle hdec⟩
      simp only [Bool.false_eq_true, reduceCtorEq, false_and, exists_false]
  | some insn =>
      refine ⟨insn.id == .ecall, ?_, readOnlySweep_some hd hle hdec⟩
      simp only [beq_iff_eq, Option.some.injEq, exists_eq_left']

theorem advance_pos (hd : WellBehaved context.handle) : 0 < advance context m code := by
  unfold advance
  cases hdec : context.handle (bytesFrom m code (context.last - code + 1)) with
  | none => exact Nat.one_pos
  | some insn => exact Nat.pos_of_ne_zero (hd.pos _ _ hdec)

/-- What is reported is four bytes of the section. -/
theorem Reports.fits (hd : WellBehaved context.handle) (hle : code ≤ context.last)
    (h : Reports context m code) :
    advance context m code = 4 ∧ code + 4 ≤ context.last + 1 := by
  rcases h with ⟨insn, hdec, hid⟩
  have h4 : insn.size = 4 := hd.ecall _ _ hdec hid
  have hsize := hd.fits _ _ hdec
  rw [length_bytesFrom] at hsize
  refine ⟨?_, by omega⟩
  unfold advance
  rw [hdec]
  exact h4

/-- Past the end of the section nothing is reported. -/
theorem mem_reported_end (hle : ¬ code ≤ context.last) (p : Nat) :
    p ∈ reported (readOnlySweep context m code) ↔
      Visits (advance context m) code p ∧ p ≤ context.last ∧ Reports context m p := by
  rw [readOnlySweep_end hle]
  constructor
  · intro h
    exact absurd h List.not_mem_nil
  · rintro ⟨hv, hp, _⟩
    have := hv.le
    omega

theorem mem_reported_cons (q : Nat) (b : Bool) (sweep : List (Nat × Bool)) (p : Nat) :
    p ∈ reported ((q, b) :: sweep) ↔ (p = q ∧ b = true) ∨ p ∈ reported sweep := by
  cases b with
  | false => simp only [reported_skip, Bool.false_eq_true, and_false, false_or]
  | true => simp only [reported_take, List.mem_cons, and_true]

/-- The sweep as a list and as a relation. -/
theorem mem_reported_iff (hd : WellBehaved context.handle) (p : Nat) :
    ∀ (n code : Nat), context.last + 1 - code ≤ n →
    (p ∈ reported (readOnlySweep context m code) ↔
      Visits (advance context m) code p ∧ p ≤ context.last ∧ Reports context m p) := by
  intro n
  induction n with
  | zero => exact fun code hn => mem_reported_end (by omega) p
  | succ n ih =>
      intro code hn
      by_cases hle : code ≤ context.last
      · rcases readOnlySweep_step (m := m) hd hle with ⟨b, hb, hstep⟩
        have hpos : 0 < advance context m code := advance_pos hd
        rw [hstep, mem_reported_cons, ih (code + advance context m code) (by omega)]
        constructor
        · rintro (⟨rfl, htrue⟩ | ⟨hv, hp, hr⟩)
          · exact ⟨Visits.refl _ _, hle, hb.mp htrue⟩
          · exact ⟨hv.tail, hp, hr⟩
        · rintro ⟨hv, hp, hr⟩
          rcases hv.cases with rfl | hv
          · exact Or.inl ⟨rfl, hb.mpr hr⟩
          · exact Or.inr ⟨hv, hp, hr⟩
      · exact mem_reported_end hle p

/-- What is reported does not overlap. -/
theorem reported_apart (hd : WellBehaved context.handle) :
    ∀ (n code : Nat), context.last + 1 - code ≤ n →
    (reported (readOnlySweep context m code)).Pairwise (fun p q => p + 4 ≤ q) := by
  intro n
  induction n with
  | zero =>
      intro code hn
      rw [readOnlySweep_end (by omega)]
      exact List.Pairwise.nil
  | succ n ih =>
      intro code hn
      by_cases hle : code ≤ context.last
      · rcases readOnlySweep_step (m := m) hd hle with ⟨b, hb, hstep⟩
        have hpos : 0 < advance context m code := advance_pos hd
        have hrest := ih (code + advance context m code) (by omega)
        rw [hstep]
        cases b with
        | false => exact hrest
        | true =>
            -- The sweep goes on four bytes further.
            refine List.pairwise_cons.mpr ⟨fun q hq => ?_, hrest⟩
            have hge := ((mem_reported_iff hd q _ _ (Nat.le_refl _)).mp hq).1.le
            rw [((hb.mp rfl).fits hd hle).1] at hge
            exact hge
      · rw [readOnlySweep_end hle]
        exact List.Pairwise.nil

end Reported

/-! ## A section -/

/-- The `ecall`s that a sweep over the original bytes of a section reports. -/
def sectionEcalls (d : Disassembler) (code : Addr) (size : BitVec 64) (m : Mem) : List Nat :=
  reported (readOnlySweep ⟨d, code.toNat + size.toNat - 1⟩ m code.toNat)

section Section

variable {d : Disassembler} {code : Addr} {size : BitVec 64} {m m' : Mem}

theorem mem_sectionEcalls_iff (hd : WellBehaved d) {p : Nat} :
    p ∈ sectionEcalls d code size m ↔
      Visits (advance ⟨d, code.toNat + size.toNat - 1⟩ m) code.toNat p ∧
      p ≤ code.toNat + size.toNat - 1 ∧ Reports ⟨d, code.toNat + size.toNat - 1⟩ m p :=
  mem_reported_iff hd p _ _ (Nat.le_refl _)

/-- The `ecall`s are inside the section. -/
theorem sectionEcalls_inside (hd : WellBehaved d) (hpos : 0 < code.toNat + size.toNat) {p : Nat}
    (hp : p ∈ sectionEcalls d code size m) :
    code.toNat ≤ p ∧ p + 4 ≤ code.toNat + size.toNat := by
  rcases (mem_sectionEcalls_iff hd).mp hp with ⟨hv, hle, hr⟩
  have hge := hv.le
  have hend := (hr.fits hd hle).2
  simp only at hend
  omega

/-- They depend on the bytes of the section. -/
theorem sectionEcalls_congr (hpos : 0 < code.toNat + size.toNat)
    (h : ∀ a, code.toNat ≤ a → a < code.toNat + size.toNat →
      m' (BitVec.ofNat 64 a) = m (BitVec.ofNat 64 a)) :
    sectionEcalls d code size m' = sectionEcalls d code size m := by
  refine congrArg reported (readOnlySweep_congr (fun a hlow hhigh => h a hlow ?_))
  simp only at hhigh
  omega

end Section

/-! ## The stores -/

section Stores

variable {ps : List Nat} {m : Mem} {b : Addr}

/-- Stores outside of an address leave its byte alone. -/
theorem patchAll_outside (h : ∀ p ∈ ps, 4 ≤ (b - BitVec.ofNat 64 p).toNat) :
    patchAll m ps b = m b := by
  induction ps generalizing m with
  | nil => rfl
  | cons p ps ih =>
      rcases List.forall_mem_cons.mp h with ⟨hp, hps⟩
      exact (ih hps).trans (Mem.write_outside hp)

/-- Words do not overlap. -/
def WordsApart (p q : Nat) : Prop := p + 4 ≤ q ∨ q + 4 ≤ p

/-- A store is seen where no later one overlaps it. -/
theorem patchAll_inside (hapart : ps.Pairwise WordsApart) (hsmall : ∀ q ∈ ps, q + 4 ≤ 2 ^ 64)
    {p k : Nat} (hp : p ∈ ps) (hk : k < 4) :
    patchAll m ps (BitVec.ofNat 64 (p + k)) = patchedEcall.extractLsb' (8 * k) 8 := by
  induction ps generalizing m with
  | nil => exact absurd hp List.not_mem_nil
  | cons q ps ih =>
      rcases List.pairwise_cons.mp hapart with ⟨hq, hps⟩
      rcases List.forall_mem_cons.mp hsmall with ⟨hq4, hps4⟩
      rcases List.mem_cons.mp hp with rfl | hmem
      · -- The stores that follow are elsewhere.
        have hlater : patchAll (m.write (BitVec.ofNat 64 p) 4 patchedEcall) ps
            (BitVec.ofNat 64 (p + k))
            = m.write (BitVec.ofNat 64 p) 4 patchedEcall (BitVec.ofNat 64 (p + k)) := by
          refine patchAll_outside (fun r hr => ?_)
          have hr4 := hps4 r hr
          have hor : p + 4 ≤ r ∨ r + 4 ≤ p := hq r hr
          bv_omega
        have hoff : (BitVec.ofNat 64 (p + k) - BitVec.ofNat 64 p).toNat = k := by bv_omega
        refine hlater.trans ?_
        simp only [Mem.write, hoff, if_pos hk]
      · exact ih hps hps4 hmem

theorem patchAll_append (m : Mem) (ps qs : List Nat) :
    patchAll (patchAll m ps) qs = patchAll m (ps ++ qs) := by
  simp only [patchAll, List.foldl_append]

end Stores

end Vpoline
