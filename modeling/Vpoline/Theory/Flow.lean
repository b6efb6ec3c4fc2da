import Vpoline.Core.Threads
import Vpoline.Theory.Place

/-!
# What One Instruction Can Do

The instructions of a thread, one after the other: where each of them leads,
which registers it leaves alone, and what it records. `Place.step` says that
a thread stays at known places. This module says which place follows which.

`Flow` has one case for each kind of instruction and nothing else, so that a
property of runs is shown by going through its cases, without a look at the
assembly or the injected words.

## Main definitions

* `Stmt.straight`, `Stmt.writes`: Statements that go on to the next one, and
  the register that a statement writes.
* `Flow`: What one instruction can do.

## Theorems

* `loc_injective`: Statements have addresses of their own.
* `straight_step`: An instruction that goes on to the next one.
* `stmt_step`, `stmt_beq`, `stmt_jalr`: The statements.
* `addi_value`, `mv_value`: What two of them compute.
* `asm_flow`, `noIntercept_flow`, `ret_flow`, `trampoline_flow`: The pieces of
  code.
* `Place.flow`: Every instruction of a thread.
-/

namespace Vpoline

open RV64

variable {K : Type} {env : Env K} {sites : Addr → Prop}

/-- The register a statement writes. -/
def Stmt.writes : Stmt → Option Reg
  | .ins i => destination i
  | .la rd => some rd
  | .call => some ra
  | _ => none

/-- The statements that go on to the next one. -/
def Stmt.straight : Stmt → Bool
  | .ins i => sequential i
  | .la _ => true
  | _ => false

/-- The statements of `asm_syscall_hook` have addresses of their own. -/
theorem loc_injective {i j : Nat} (hi : i < 98) (hj : j < 98)
    (h : env.loc .asmSyscallHook i = env.loc .asmSyscallHook j) : i = j := by
  -- The region of an address names the statement that is there.
  have hregion := env.region_loc .asmSyscallHook i hi
  rw [h, env.region_loc .asmSyscallHook j hj] at hregion
  injection hregion with _ hij
  exact hij.symm

theorem loc_ne_returnWord {i j : Nat} (hi : i < 98) (hj : j < 14) :
    env.loc .asmSyscallHook i ≠ returnWord env j := by
  intro h
  have hregion := env.region_loc .asmSyscallHook i hi
  rw [h, returnWord, env.region_return j hj] at hregion
  exact absurd hregion (by simp only [reduceCtorEq, not_false_eq_true])

/-- The branches of `asm_syscall_hook`: where they are, what they compare, and
    where they lead. -/
def asmBranches : List (Nat × Reg × Reg × Nat) :=
  [(5, a7, t0, 94), (74, t0, zero, 82), (76, t0, zero, 78), (83, a7, t0, 90), (85, a7, t0, 90)]

/-- What one instruction of a thread can do. -/
inductive Flow (env : Env K) (sites : Addr → Prop) (c c' : Conf K) : Prop
  | app : env.region c.pc = .foreign → Lands env sites c'.pc → Flow env sites c c'
  | site : sites c.pc → c'.pc = env.rgp → c'.trace = c.trace → Flow env sites c c'
  | trampoline (k : Nat) : k < 19 → c.pc = env.rgp + BitVec.ofNat 64 (4 * k) →
      c'.pc = env.rgp + BitVec.ofNat 64 (4 * (k + 1)) → c'.trace = c.trace → Flow env sites c c'
  | enter : c.pc = env.rgp + BitVec.ofNat 64 (4 * 19) → c'.pc = env.loc .asmSyscallHook 0 →
      c'.trace = c.trace → Flow env sites c c'
  | straight (p : Prog) (i : Nat) (s : Stmt) : p.text[i]? = some s → s.straight = true →
      i + 1 < p.text.length → c.pc = env.loc p i → c'.pc = env.loc p (i + 1) →
      c'.trace = c.trace → (∀ r, s.writes ≠ some r → c'.x.get r = c.x.get r) →
      (∀ ins, s = .ins ins → exec id (env.loc p (i + 1)) c.toCore ins = some c'.toCore) →
      Flow env sites c c'
  | branch (i : Nat) (rs1 rs2 : Reg) (target : Nat) : (i, rs1, rs2, target) ∈ asmBranches →
      c.pc = env.loc .asmSyscallHook i → c'.x = c.x → c'.trace = c.trace →
      (c.x.get rs1 = c.x.get rs2 ∧ c'.pc = env.loc .asmSyscallHook target ∨
        c.x.get rs1 ≠ c.x.get rs2 ∧ c'.pc = env.loc .asmSyscallHook (i + 1)) →
      Flow env sites c c'
  | jump : c.pc = env.loc .asmSyscallHook 97 → c'.pc = env.loc .asmSyscallHook 82 →
      c'.x = c.x → c'.trace = c.trace → Flow env sites c c'
  | call : c.pc = env.loc .asmSyscallHook 38 → c'.pc = env.syscallHook →
      c'.trace = c.trace → Flow env sites c c'
  | retJump (b : Nat × Nat) : b ∈ retBlocks → c.pc = env.loc .asmSyscallHook (b.1 + 3) →
      c'.pc = returnWord env b.2 → (∀ r, c'.x.get r = c.x.get r) → c'.trace = c.trace →
      Flow env sites c c'
  | hookNull : c.pc = env.syscallHook → SyscallHookNull env c c' →
      c'.pc = env.loc .asmSyscallHook 39 → Flow env sites c c'
  | hookCall (act : Activation) : c.pc = env.syscallHook → SyscallHookCall env act c c' →
      App env sites c'.pc → Flow env sites c c'
  | hookReturn (act : Activation) (rest : List Activation) : c.pc = env.hookRet →
      SyscallHookReturn env act rest c c' → c'.pc = env.loc .asmSyscallHook 39 →
      Flow env sites c c'
  | word (i : Nat) (ins : Instr) : (setupReturn.map decode)[i]? = some (some ins) →
      sequential ins = true → i + 1 < 14 → c.pc = returnWord env i →
      c'.pc = returnWord env (i + 1) → c'.trace = c.trace →
      (∀ r, destination ins ≠ some r → c'.x.get r = c.x.get r) → Flow env sites c c'
  | wordJump (i : Nat) : i = 3 ∨ i = 8 → c.pc = returnWord env i → c'.pc = returnWord env 13 →
      c'.trace = c.trace → Flow env sites c c'
  | issue : IssuesAt env c.pc c'.pc → c'.trace = c.trace ++ [.ecall c.toCore c.kst] →
      (∀ r, r ≠ a0 → c'.x.get r = c.x.get r) → Flow env sites c c'
  | leave : c.pc = returnWord env 13 ∨ c.pc = env.loc .syscallNoIntercept 8 →
      Lands env sites c'.pc → c'.trace = c.trace → Flow env sites c c'

section Statements

variable {c c' : Conf K}

/-- An instruction that goes on to the next one. -/
theorem straight_step {a next : Addr} {ins : Instr} (hfetch : Fetches env c.mem a ins next)
    (hseq : sequential ins = true) (hpc : c.pc = a) (he : Exec env c c') :
    c'.pc = next ∧ c'.trace = c.trace ∧
      (∀ r, destination ins ≠ some r → c'.x.get r = c.x.get r) ∧
      exec id next c.toCore ins = some c'.toCore := by
  have hne : ins ≠ .ecall := by
    rintro rfl
    exact absurd hseq Bool.false_ne_true
  rw [hfetch c c' hpc (fun _ _ => rfl)] at he
  rcases execInstr_core he hne with ⟨core, hcore, rfl⟩
  exact ⟨exec_sequential hseq hcore, rfl, fun r hr => exec_other hr hcore, hcore⟩

/-- A statement that goes on to the next one. -/
theorem stmt_step {p : Prog} {i : Nat} {s : Stmt} (hs : p.text[i]? = some s)
    (hst : s.straight = true) (hi : i + 1 < p.text.length) (hpc : c.pc = env.loc p i)
    (he : Exec env c c') : Flow env sites c c' := by
  cases s with
  | ins ins =>
      rcases straight_step (fetches_stmt c.mem hs) hst hpc he with ⟨hpc', htrace, hregs, hexec⟩
      refine .straight p i _ hs hst hi hpc hpc' htrace hregs (fun ins' heq => ?_)
      cases heq
      exact hexec
  | la rd =>
      rw [exec_stmt_iff hs hpc] at he
      cases he
      refine .straight p i _ hs hst hi hpc rfl rfl (fun r hr => ?_) (fun ins heq => ?_)
      -- `la` writes its register and nothing else.
      · refine get_set_other c.x rd r _ (fun heq => hr ?_)
        rw [heq]
        rfl
      · exact absurd heq (by simp only [reduceCtorEq, not_false_eq_true])
  | beq rs1 rs2 target => exact absurd hst Bool.false_ne_true
  | j target => exact absurd hst Bool.false_ne_true
  | call => exact absurd hst Bool.false_ne_true

/-- A branch changes the program counter only. -/
theorem stmt_beq {i : Nat} {rs1 rs2 : Reg} {target : Label}
    (hs : Prog.asmSyscallHook.text[i]? = some (.beq rs1 rs2 target))
    (hb : (i, rs1, rs2, target.index) ∈ asmBranches)
    (hpc : c.pc = env.loc .asmSyscallHook i) (he : Exec env c c') : Flow env sites c c' := by
  rw [exec_stmt_iff hs hpc] at he
  cases he
  refine .branch i rs1 rs2 target.index hb hpc rfl rfl ?_
  by_cases heq : c.get rs1 = c.get rs2
  · exact Or.inl ⟨heq, if_pos heq⟩
  · exact Or.inr ⟨heq, if_neg heq⟩

/-- A jump through a register, with no link. -/
theorem stmt_jalr {p : Prog} {i : Nat} {rs : Reg}
    (hs : p.text[i]? = some (.ins (.jalr zero rs 0))) (hpc : c.pc = env.loc p i)
    (he : Exec env c c') :
    c'.pc = jumpTarget (c.x.get rs) ∧ c'.trace = c.trace ∧ ∀ r, c'.x.get r = c.x.get r := by
  rw [fetches_stmt c.mem hs c c' hpc (fun _ _ => rfl)] at he
  rcases execInstr_core he (by simp only [ne_eq, reduceCtorEq, not_false_eq_true]) with
    ⟨core, hcore, rfl⟩
  simp only [exec, Option.some.injEq] at hcore
  have hpc' : core.pc = jumpTarget (c.x.get rs + (0 : BitVec 12).signExtend 64) := by
    rw [← hcore]
    rfl
  refine ⟨?_, rfl, fun r => ?_⟩
  · rw [show (0 : BitVec 12).signExtend 64 = 0#64 by decide, BitVec.add_zero] at hpc'
    exact hpc'
  · show core.get r = c.x.get r
    rw [← hcore]
    show (c.x.set zero (env.loc p (i + 1))).get r = _
    rw [set_zero]

/-- The value that `addi` computes. -/
theorem addi_value {next : Addr} {core core' : Core} {rd rs : Reg} {imm : BitVec 12}
    (hrd : rd ≠ 0) (h : exec id next core (.addi rd rs imm) = some core') :
    core'.get rd = core.get rs + imm.signExtend 64 := by
  simp only [exec, Option.some.injEq] at h
  rw [← h]
  exact get_set_self _ _ _ hrd

/-- `mv` is one without an offset. -/
theorem mv_value {next : Addr} {core core' : Core} {rd rs : Reg} (hrd : rd ≠ 0)
    (h : exec id next core (.addi rd rs 0) = some core') : core'.get rd = core.get rs := by
  rw [addi_value hrd h, show (0 : BitVec 12).signExtend 64 = 0#64 by decide, BitVec.add_zero]

/-- A system call. -/
theorem ecall_flow {next : Addr} (hfetch : Fetches env c.mem c.pc .ecall next)
    (hissue : IssuesAt env c.pc next) (he : Exec env c c') : Flow env sites c c' := by
  rw [hfetch c c' rfl (fun _ _ => rfl)] at he
  cases he with
  | step _ core hcore => exact absurd hcore (by simp only [exec, reduceCtorEq, not_false_eq_true])
  | ecall res m k' _ => exact .issue hissue rfl (fun r hr => get_set_other c.x a0 r res hr)

end Statements

section Assembly

variable {c c' : Conf K} {i : Nat}

/-- The statements of `asm_syscall_hook` that do not go on to the next one. -/
theorem straight_table : ∀ i, i < 98 →
    (i + 1 < 98 ∧ ∀ s ∈ asmSyscallHook[i]?, s.straight = true) ∨
      i ∈ [5, 38, 74, 76, 77, 81, 83, 85, 89, 93, 97] := by
  decide

/-- The last statement of a jump to the return sequence. -/
theorem retJump_flow {b : Nat × Nat} (hb : b ∈ retBlocks)
    (hs : Prog.asmSyscallHook.text[b.1 + 3]? = some (.ins (.jalr zero t0 0)))
    (hpc : c.pc = env.loc .asmSyscallHook (b.1 + 3)) (hregs : AsmRegs env (b.1 + 3) c.x)
    (he : Exec env c c') : Flow env sites c c' := by
  rcases stmt_jalr hs hpc he with ⟨hpc', htrace, hx⟩
  have heven : EvenAddr (returnWord env b.2) := by
    have hrgp := env.rgp_even
    simp only [EvenAddr, returnWord] at hrgp ⊢
    bv_omega
  rw [hregs.target b hb rfl, jumpTarget_even heven] at hpc'
  exact .retJump b hb hpc hpc' hx htrace

/-- One statement of `asm_syscall_hook`. -/
theorem asm_flow (hi : i < 98) (hpc : c.pc = env.loc .asmSyscallHook i)
    (hregs : AsmRegs env i c.x) (he : Exec env c c') : Flow env sites c c' := by
  rcases straight_table i hi with ⟨hlt, hstraight⟩ | hjump
  · rcases (⟨_, List.getElem?_eq_getElem hi⟩ : ∃ s, asmSyscallHook[i]? = some s) with ⟨s, hget⟩
    exact stmt_step (p := .asmSyscallHook) hget (hstraight s hget) hlt hpc he
  · simp only [List.mem_cons, List.not_mem_nil, or_false] at hjump
    -- The cases are in the order of the table.
    rcases hjump with rfl | rfl | rfl | rfl | rfl | rfl | rfl | rfl | rfl | rfl | rfl
    · exact stmt_beq rfl (by decide) hpc he
    -- The call of `syscall_hook`.
    · have hs : Prog.asmSyscallHook.text[38]? = some .call := rfl
      rw [exec_stmt_iff hs hpc] at he
      cases he
      exact .call hpc rfl rfl
    · exact stmt_beq rfl (by decide) hpc he
    · exact stmt_beq rfl (by decide) hpc he
    · -- `ebreak` traps.
      have hs : Prog.asmSyscallHook.text[77]? = some (.ins .ebreak) := rfl
      rw [fetches_stmt c.mem hs c c' hpc (fun _ _ => rfl)] at he
      rcases execInstr_core he (by simp only [ne_eq, reduceCtorEq, not_false_eq_true]) with
        ⟨core, hcore, _⟩
      exact absurd hcore (by simp only [exec, reduceCtorEq, not_false_eq_true])
    · exact retJump_flow (b := (78, 0)) (by decide) rfl hpc hregs he
    · exact stmt_beq rfl (by decide) hpc he
    · exact stmt_beq rfl (by decide) hpc he
    · exact retJump_flow (b := (86, 4)) (by decide) rfl hpc hregs he
    · exact retJump_flow (b := (90, 9)) (by decide) rfl hpc hregs he
    -- `rt_sigreturn` joins the way out of the forwarded calls.
    · have hs : Prog.asmSyscallHook.text[97]? = some (.j .returnPrelude) := rfl
      rw [exec_stmt_iff hs hpc] at he
      cases he
      exact .jump hpc rfl rfl rfl

/-- One statement of `syscall_no_intercept`. -/
theorem noIntercept_flow (hi : i < 9) (hpc : c.pc = env.loc .syscallNoIntercept i)
    (hl : Leaves env c.pc → Lands env sites c'.pc) (he : Exec env c c') :
    Flow env sites c c' := by
  have htable : ∀ i, i < 7 → ∀ s ∈ syscallNoIntercept[i]?, s.straight = true := by decide
  rcases (by omega : i < 7 ∨ i = 7 ∨ i = 8) with hlt | rfl | rfl
  · rcases (⟨_, List.getElem?_eq_getElem hi⟩ : ∃ s, syscallNoIntercept[i]? = some s) with ⟨s, hget⟩
    have hlen : i + 1 < 9 := by omega
    exact stmt_step (p := .syscallNoIntercept) hget (htable i hlt s hget) hlen hpc he
  -- Seven moves, the call and the return.
  · have hs : Prog.syscallNoIntercept.text[7]? = some (.ins .ecall) := rfl
    refine ecall_flow (hpc ▸ fetches_stmt c.mem hs) (Or.inr (Or.inr ⟨hpc, rfl⟩)) he
  · have hs : Prog.syscallNoIntercept.text[8]? = some (.ins (.jalr zero ra 0)) := rfl
    exact .leave (Or.inr hpc) (hl (Or.inr (Or.inr hpc))) (stmt_jalr hs hpc he).2.1

end Assembly

section Injected

variable {c c' : Conf K} {i : Nat}

/-- A return word that goes on to the next one. -/
theorem word_flow {ins : Instr} (hi : (setupReturn.map decode)[i]? = some (some ins))
    (hseq : sequential ins = true) (hnext : i + 1 < 14) (hm : Installed env c.mem)
    (hpc : c.pc = returnWord env i) (he : Exec env c c') : Flow env sites c c' := by
  rcases straight_step (fetches_return hm hi) hseq hpc he with ⟨hpc', htrace, hregs, _⟩
  exact .word i ins hi hseq hnext hpc hpc' htrace hregs

/-- A jump to the last return word. -/
theorem wordJump_flow (imm : BitVec 21) (hw : i = 3 ∨ i = 8)
    (hi : (setupReturn.map decode)[i]? = some (some (.jal zero imm)))
    (himm : returnWord env i + imm.signExtend 64 = returnWord env 13)
    (hm : Installed env c.mem) (hpc : c.pc = returnWord env i) (he : Exec env c c') :
    Flow env sites c c' := by
  rw [fetches_return hm hi c c' hpc (fun _ _ => rfl)] at he
  rcases execInstr_core he (by simp only [ne_eq, reduceCtorEq, not_false_eq_true]) with
    ⟨core, hcore, rfl⟩
  simp only [exec, Option.some.injEq] at hcore
  refine .wordJump i hw hpc ?_ rfl
  show core.pc = _
  rw [← hcore, ← himm, ← hpc]
  rfl

/-- The words of the return sequence that go on to the next one. -/
theorem returnWord_table : ∀ i, i < 14 →
    (i + 1 < 14 ∧ ∀ o ∈ (setupReturn.map decode)[i]?, ∀ ins ∈ o, sequential ins = true) ∨
      i ∈ [3, 4, 8, 12, 13] := by
  decide

/-- Every word of the return sequence is an instruction. -/
theorem returnWord_decodes : ∀ i, i < 14 →
    ((setupReturn.map decode)[i]?.bind id).isSome = true := by
  decide

/-- One word of the return sequence. -/
theorem ret_flow (hm : Installed env c.mem) (hi : i < 14) (hpc : c.pc = returnWord env i)
    (hl : Leaves env c.pc → Lands env sites c'.pc) (he : Exec env c c') :
    Flow env sites c c' := by
  rcases returnWord_table i hi with ⟨hlt, hseq⟩ | hjump
  · rcases Option.isSome_iff_exists.mp (returnWord_decodes i hi) with ⟨ins, hins⟩
    rcases Option.bind_eq_some_iff.mp hins with ⟨o, ho, rfl⟩
    exact word_flow ho (hseq _ ho ins rfl) hlt hm hpc he
  · simp only [List.mem_cons, List.not_mem_nil, or_false] at hjump
    -- Two jumps to the last word, two system calls, and the last word itself.
    rcases hjump with rfl | rfl | rfl | rfl | rfl
    · exact wordJump_flow 40 (Or.inl rfl) (by decide) (returnWord_jump env (by decide)) hm hpc he
    · have hdec : (setupReturn.map decode)[4]? = some (some .ecall) := by decide
      exact ecall_flow (hpc ▸ fetches_return hm hdec) (Or.inl ⟨hpc, rfl⟩) he
    · exact wordJump_flow 20 (Or.inr rfl) (by decide) (returnWord_jump env (by decide)) hm hpc he
    · have hdec : (setupReturn.map decode)[12]? = some (some .ecall) := by decide
      exact ecall_flow (hpc ▸ fetches_return hm hdec) (Or.inr (Or.inl ⟨hpc, rfl⟩)) he
    · -- The final jump.
      have hdec : (setupReturn.map decode)[13]? = some (some (.jalr gp gp 0)) := by decide
      have hland := hl (Or.inr (Or.inl hpc))
      rw [fetches_return hm hdec c c' hpc (fun _ _ => rfl)] at he
      rcases execInstr_core he (by simp only [ne_eq, reduceCtorEq, not_false_eq_true]) with
        ⟨core, _, rfl⟩
      exact .leave (Or.inl hpc) hland rfl

/-- A word of the trampoline in front of its jump. -/
theorem trampoline_flow {k : Nat} (hm : Installed env c.mem) (hk : k < 19)
    (hpc : c.pc = env.rgp + BitVec.ofNat 64 (4 * k)) (he : Exec env c c') :
    Flow env sites c c' := by
  rcases trampolineInstrs_get env.dst (k := k) (by omega) with ⟨ins, hget⟩
  -- The jump is the twentieth word and the only one.
  have hall : ((trampolineInstrs env.dst).take 19).all sequential = true := rfl
  have hseq := List.all_eq_true.mp hall ins
    (List.mem_of_getElem? ((List.getElem?_take_of_lt hk).trans hget))
  rcases straight_step (fetches_trampoline hm (trampoline_word hget)) hseq hpc he with
    ⟨hpc', htrace, _⟩
  exact .trampoline k hk hpc hpc' htrace

/-- The jump at the end of the trampoline. -/
theorem enter_flow {y₀ y : Sym} (hm : Installed env c.mem)
    (hpc : c.pc = env.rgp + BitVec.ofNat 64 (4 * 19))
    (hrun : y₀.run 304 (trampolineBody env.dst) = some y) (hx : c.x = y.x)
    (he : Exec env c c') : Flow env sites c c' := by
  -- The words in front have computed the address of `asm_syscall_hook` in `t0`.
  rcases trampoline_run env.dst y₀ with ⟨z, hfull, ht0, _⟩
  rw [hfull, Option.some.injEq] at hrun
  rw [fetches_trampoline hm (trampoline_word rfl) c c' hpc (fun _ _ => rfl)] at he
  rcases execInstr_core he (by simp only [ne_eq, reduceCtorEq, not_false_eq_true]) with
    ⟨core, hcore, rfl⟩
  refine .enter hpc ?_ rfl
  simp only [exec, Option.some.injEq] at hcore
  show core.pc = _
  rw [← hcore]
  show jumpTarget (c.x.get t0 + (0 : BitVec 12).signExtend 64) = _
  rw [hx, ← hrun, ht0, show (0 : BitVec 12).signExtend 64 = 0#64 by decide, BitVec.add_zero]
  exact jumpTarget_even (env.loc_even _ _)

/-- A patched site. -/
theorem site_flow (hs : PatchedSites env sites) (hsite : sites c.pc)
    (hword : c.mem.read c.pc 4 = patchedEcall) (hgp : c.x.get gp = env.rgp)
    (he : Exec env c c') : Flow env sites c c' := by
  have hpc' := (site_step hs hsite hword hgp he).1
  have hdec : decode (c.mem.read c.pc 4) = some (.jalr gp gp 0) := by
    rw [hword]
    decide
  rw [exec_word_iff (hs.region _ hsite) hdec] at he
  rcases execInstr_core he (by simp only [ne_eq, reduceCtorEq, not_false_eq_true]) with
    ⟨core, _, rfl⟩
  exact .site hsite hpc' rfl

end Injected

/-- Every instruction of a thread. The cases are the places it can be at. -/
theorem Place.flow (hs : PatchedSites env sites) {c c' : Conf K}
    (h : Place env sites c.pc c.x) (hacts : Returns env c.activations)
    (hm : Loaded env sites c.mem) (he : Exec env c c')
    (hl : Leaves env c.pc → Lands env sites c'.pc) : Flow env sites c c' := by
  -- `syscall_hook` returns behind its call in `asm_syscall_hook`.
  have hback : jumpTarget (env.loc .asmSyscallHook 39) = env.loc .asmSyscallHook 39 :=
    jumpTarget_even (env.loc_even _ _)
  cases h with
  | app happ hgp =>
      rcases happ with hforeign | hsite
      · exact .app hforeign (hl (Or.inl hforeign))
      · exact site_flow hs hsite (hm.text _ hsite) hgp he
  | entry hpc =>
      refine trampoline_flow (k := 0) hm.installed (by decide) ?_ he
      rw [hpc]
      exact (BitVec.add_zero _).symm
  | body k y₀ y hk hpc hrun hx =>
      -- Eighteen instructions of the body have been executed when the jump is next.
      rcases Nat.lt_or_ge k 18 with hlt | hge
      · exact trampoline_flow hm.installed (by omega) hpc he
      · have hk18 : k = 18 := by omega
        subst hk18
        have hlen : (trampolineBody env.dst).length = 18 := rfl
        rw [List.take_of_length_le (by omega)] at hrun
        exact enter_flow hm.installed hpc hrun hx he
  | hook i hi hpc hregs => exact asm_flow hi hpc hregs he
  | noIntercept i hi hpc _ => exact noIntercept_flow hi hpc hl he
  | call hpc hra _ =>
      have hregion : env.region c.pc = .syscallHook := hpc ▸ env.region_syscallHook
      simp only [Exec, hregion] at he
      rcases he with hnull | ⟨act, hcall⟩
      · refine .hookNull hpc hnull ?_
        rw [hnull.pc, show c.x ra = c.x.get ra from rfl, hra, hback]
      · refine .hookCall act hpc hcall ?_
        rw [hcall.pc]
        exact hm.hook hcall.hook
  | hookRet hpc _ =>
      have hregion : env.region c.pc = .hookReturn := hpc ▸ env.region_hookRet
      simp only [Exec, hregion] at he
      rcases he with ⟨act, rest, hret⟩
      refine .hookReturn act rest hpc hret ?_
      rw [hret.pc, hacts act (by rw [hret.pending]; exact List.mem_cons_self), hback]
  | ret i hi hpc _ => exact ret_flow hm.installed hi hpc hl he

end Vpoline
