import Vpoline.Core.Signals
import Vpoline.Theory.Run
import Vpoline.Theory.Trampoline

/-!
# Where a Thread Can Be

The control points of a thread that uses vpoline, each with what the registers
hold there, and the proof that every instruction leads from one to another.

Most registers are not mentioned. What matters is where control goes next, so
`Place` records the registers that vpoline jumps or loads through, and `gp`
wherever it is `relocated_gp`. Inside the trampoline these are the registers
of the symbolic run up to the current word. Nothing is said about the stack:
the only jump through it is the final one of the return sequence, and its link
value puts `gp` right whatever the target.

The statements of `asm_syscall_hook` are handled in bulk. `asm_table` checks
by evaluation that all but a few of them go on to the next statement and leave
`gp` and the pointers in `t0` alone.

## Main definitions

* `destination`: The register an instruction writes.
* `AsmRegs`: The registers at a statement of `asm_syscall_hook`.
* `Place`: The control points and their registers.
* `Loaded`: What memory has to hold.

## Theorems

* `exec_x_eq`: The registers of a symbolic run are those of the machine.
* `Place.gp_of_not_window`: Outside the windows `gp` is in place.
* `body_step`: The trampoline.
* `hook_step`: The assembly.
* `ret_step`: The return sequence.
* `Place.step`: One instruction of a thread.
-/

namespace Vpoline

open RV64

variable {K : Type} {env : Env K} {sites : Addr → Prop}

section Instructions

variable {next : Addr} {c core : Core} {ins : Instr}

/-- The integer register an instruction writes, if any. -/
def destination : Instr → Option Reg
  | .lui rd _ => some rd
  | .addi rd _ _ => some rd
  | .ori rd _ _ => some rd
  | .slli rd _ _ => some rd
  | .srli rd _ _ => some rd
  | .or rd _ _ => some rd
  | .and rd _ _ => some rd
  | .load _ _ rd _ _ => some rd
  | .jal rd _ => some rd
  | .jalr rd _ _ => some rd
  | _ => none

theorem exec_other {r : Reg} (hr : destination ins ≠ some r)
    (he : exec id next c ins = some core) : core.get r = c.get r := by
  cases ins <;> simp only [exec, Option.some.injEq, reduceCtorEq] at he <;> rw [← he]
  -- Stores and floating-point loads leave the integer registers alone.
  case store w rs2 rs1 imm => rfl
  case fload w rd rs1 imm => rfl
  case fstore w rs2 rs1 imm => rfl
  all_goals exact get_set_other _ _ _ _ (fun heq => hr (heq ▸ rfl))

theorem execInstr_core {c c' : Conf K} (h : ExecInstr env next c ins c') (hne : ins ≠ .ecall) :
    ∃ core, exec id next c.toCore ins = some core ∧ c' = { c with toCore := core } := by
  cases h with
  | step _ core he => exact ⟨core, he, rfl⟩
  | ecall res m k' _ => exact absurd rfl hne

/-- Instructions whose effect on the integer registers does not depend on
    memory. -/
def noLoad : Instr → Bool
  | .load _ _ _ _ _ => false
  | _ => true

/-- The registers of a symbolic run are those of the machine, whatever is in
    memory. -/
theorem exec_x_eq {y y' : Sym} {size : Nat} (hl : noLoad ins = true)
    (hy : y.exec size ins = some y') (hx : c.x = y.x) (he : exec id next c ins = some core) :
    core.x = y'.x := by
  cases ins <;> simp only [noLoad, Bool.false_eq_true] at hl <;>
    simp only [exec, Option.some.injEq, reduceCtorEq] at he
  case store w rs2 rs1 imm =>
    cases w <;> simp only [Sym.exec, Option.ite_none_right_eq_some, Option.some.injEq,
      reduceCtorEq] at hy
    rw [← he, ← hy.2]
    exact hx
  case fstore w rs2 rs1 imm =>
    cases w <;> simp only [Sym.exec, Option.ite_none_right_eq_some, Option.some.injEq,
      reduceCtorEq] at hy
    rw [← he, ← hy.2]
    exact hx
  case fload w rd rs1 imm =>
    cases w <;> simp only [Sym.exec, Option.ite_none_right_eq_some, Option.map_eq_some_iff,
      reduceCtorEq] at hy
    rcases hy with ⟨_, v, _, hv⟩
    rw [← he, ← hv]
    exact hx
  -- Jumps are not straight-line code.
  case jal rd imm => exact absurd hy (by simp only [Sym.exec, reduceCtorEq, not_false_eq_true])
  case jalr rd rs1 imm =>
    exact absurd hy (by simp only [Sym.exec, reduceCtorEq, not_false_eq_true])
  all_goals
    simp only [Sym.exec, Sym.setX, Option.ite_none_left_eq_some, Option.some.injEq] at hy
    rw [← he, ← hy.2, ← hx]
    rfl

end Instructions

/-- The three jumps to the return sequence in `asm_syscall_hook`: where they
    start, and the return word they go to. -/
def retBlocks : List (Nat × Nat) := [(78, 0), (86, 4), (90, 9)]

theorem retBlocks_bounds : ∀ b ∈ retBlocks, 78 ≤ b.1 ∧ b.1 + 3 < 98 := by decide

/-- The blocks do not overlap: a statement has one place in one of them. -/
theorem retBlocks_apart {b b' : Nat × Nat} (hb : b ∈ retBlocks) (hb' : b' ∈ retBlocks)
    {j j' : Nat} (hj : j < 4) (hj' : j' < 4) (h : b.1 + j = b'.1 + j') : b = b' ∧ j = j' := by
  have hgap : ∀ b ∈ retBlocks, ∀ b' ∈ retBlocks,
      b = b' ∨ b.1 + 4 ≤ b'.1 ∨ b'.1 + 4 ≤ b.1 := by decide
  rcases hgap b hb b' hb' with rfl | hlt | hlt
  · exact ⟨rfl, by omega⟩
  · omega
  · omega

/-- What `asm_syscall_hook` goes on to use at statement `i`: `gp` once it has
    been reloaded, and `t0` on the way to a load or a jump. -/
structure AsmRegs (env : Env K) (i : Nat) (x : Regs) : Prop where
  gp : 4 ≤ i → x.get gp = env.rgp
  pointer : (i = 3 ∨ ∃ b ∈ retBlocks, i = b.1 + 1) → x.get t0 = env.rgpVar
  loaded : (∃ b ∈ retBlocks, i = b.1 + 2) → x.get t0 = env.rgp
  target : ∀ b ∈ retBlocks, i = b.1 + 3 → x.get t0 = returnWord env b.2

/-- Where a thread is, and what its registers hold there. -/
inductive Place (env : Env K) (sites : Addr → Prop) (pc : Addr) (x : Regs) : Prop
  | app : App env sites pc → x.get gp = env.rgp → Place env sites pc x
  | entry : pc = env.rgp → Place env sites pc x
  | body (k : Nat) (y₀ y : Sym) : k ≤ 18 → pc = env.rgp + BitVec.ofNat 64 (4 * (k + 1)) →
      y₀.run 304 ((trampolineBody env.dst).take k) = some y → x = y.x → Place env sites pc x
  | hook (i : Nat) : i < 98 → pc = env.loc .asmSyscallHook i → AsmRegs env i x →
      Place env sites pc x
  | noIntercept (i : Nat) : i < 9 → pc = env.loc .syscallNoIntercept i → x.get gp = env.rgp →
      Place env sites pc x
  | call : pc = env.syscallHook → x.get ra = env.loc .asmSyscallHook 39 → x.get gp = env.rgp →
      Place env sites pc x
  | hookRet : pc = env.hookRet → x.get gp = env.rgp → Place env sites pc x
  | ret (i : Nat) : i < 14 → pc = returnWord env i →
      (i ∉ borrowedWords → x.get gp = env.rgp) → Place env sites pc x

/-- Outside the windows `gp` is in place. -/
theorem Place.gp_of_not_window {pc : Addr} {x : Regs} (h : Place env sites pc x)
    (hw : ¬ GpWindow env pc) : x.get gp = env.rgp := by
  cases h with
  | app _ hgp => exact hgp
  | entry hpc => exact absurd (Or.inl ⟨0, by omega, by rw [hpc]; exact (BitVec.add_zero _).symm⟩) hw
  | body k y₀ y hk hpc _ _ => exact absurd (Or.inl ⟨k + 1, by omega, hpc⟩) hw
  | hook i hi hpc hregs =>
      by_cases h4 : 4 ≤ i
      · exact hregs.gp h4
      · exact absurd (Or.inr (Or.inl ⟨i, by omega, hpc⟩)) hw
  | noIntercept i _ _ hgp => exact hgp
  | call _ _ hgp => exact hgp
  | hookRet _ hgp => exact hgp
  | ret i _ hpc hgp =>
      by_cases hb : i ∈ borrowedWords
      · exact absurd (Or.inr (Or.inr ⟨i, hb, hpc⟩)) hw
      · exact hgp hb

theorem Lands.place {pc : Addr} {x : Regs} (h : Lands env sites pc)
    (hgp : x.get gp = env.rgp) : Place env sites pc x := by
  rcases h with happ | hno | hret
  · exact .app happ hgp
  · exact .noIntercept 0 (by omega) hno hgp
  · exact .hookRet hret hgp

section Trampoline

variable {c c' : Conf K}

/-- Along a run that succeeds as a whole, one more instruction succeeds. -/
theorem run_take_succ {size : Nat} {y₀ y z : Sym} {l : List Instr} {k : Nat} {ins : Instr}
    (hk : l[k]? = some ins) (hfull : y₀.run size l = some z)
    (hy : y₀.run size (l.take k) = some y) :
    ∃ y', y.exec size ins = some y' ∧ y₀.run size (l.take (k + 1)) = some y' := by
  have hsplit : l.take (k + 1) = l.take k ++ [ins] := by
    rw [List.take_add_one, hk]
    rfl
  have hrun : y₀.run size (l.take (k + 1)) = y.exec size ins := by
    rw [hsplit, run_append, hy, Option.bind_some, Sym.run]
    cases y.exec size ins <;> rfl
  have hrest : y₀.run size l = (y₀.run size (l.take (k + 1))).bind
      (fun y' => y'.run size (l.drop (k + 1))) := by
    rw [← run_append, List.take_append_drop]
  cases hexec : y.exec size ins with
  | none =>
      rw [hrest, hrun, hexec] at hfull
      exact absurd hfull (by simp only [Option.bind_none, reduceCtorEq, not_false_eq_true])
  | some y' => exact ⟨y', rfl, hrun.trans hexec⟩

/-- The patched site enters the trampoline. -/
theorem site_step (hs : PatchedSites env sites) (hsite : sites c.pc)
    (hword : c.mem.read c.pc 4 = patchedEcall) (hgp : c.x.get gp = env.rgp)
    (he : Exec env c c') : c'.pc = env.rgp ∧ c'.activations = c.activations := by
  have hdec : decode (c.mem.read c.pc 4) = some (.jalr gp gp 0) := by
    rw [hword]
    decide
  rw [exec_word_iff (hs.region _ hsite) hdec] at he
  rcases execInstr_core he (by simp only [ne_eq, reduceCtorEq, not_false_eq_true]) with
    ⟨core, hcore, rfl⟩
  simp only [exec, Option.some.injEq] at hcore
  refine ⟨?_, rfl⟩
  show core.pc = env.rgp
  rw [← hcore]
  show jumpTarget (c.x.get gp + (0 : BitVec 12).signExtend 64) = env.rgp
  rw [hgp, show (0 : BitVec 12).signExtend 64 = 0#64 by decide, BitVec.add_zero]
  exact jumpTarget_even env.rgp_even

/-- The first word of the trampoline, after which its body starts. -/
theorem entry_step (hm : Installed env c.mem) (hpc : c.pc = env.rgp) (he : Exec env c c') :
    Place env sites c'.pc c'.x ∧ c'.activations = c.activations := by
  have hpc0 : c.pc = env.rgp + BitVec.ofNat 64 (4 * 0) := by
    rw [hpc]
    exact (BitVec.add_zero _).symm
  rw [fetches_trampoline hm (trampoline_word rfl) c c' hpc0 (fun _ _ => rfl)] at he
  rcases execInstr_core he (by simp only [ne_eq, reduceCtorEq, not_false_eq_true]) with
    ⟨core, hcore, rfl⟩
  have hnext := exec_sequential rfl hcore
  exact ⟨.body 0 ⟨core.x, core.f, fun _ => none⟩ ⟨core.x, core.f, fun _ => none⟩ (by omega)
    hnext rfl rfl, rfl⟩

/-- The body of the trampoline and its jump. -/
theorem body_step {k : Nat} {y₀ y : Sym} (hm : Installed env c.mem) (hk : k ≤ 18)
    (hpc : c.pc = env.rgp + BitVec.ofNat 64 (4 * (k + 1)))
    (hrun : y₀.run 304 ((trampolineBody env.dst).take k) = some y) (hx : c.x = y.x)
    (he : Exec env c c') : Place env sites c'.pc c'.x ∧ c'.activations = c.activations := by
  rcases trampoline_run env.dst y₀ with ⟨z, hfull, ht0, _⟩
  have hlen : (trampolineBody env.dst).length = 18 := rfl
  rcases Nat.lt_or_ge k 18 with hlt | hge
  · -- Inside the body the machine follows the symbolic run.
    have hget : ∃ ins, (trampolineBody env.dst)[k]? = some ins :=
      ⟨_, List.getElem?_eq_getElem (by omega)⟩
    rcases hget with ⟨ins, hget⟩
    have hi := trampoline_word (trampolineInstrs_body hget)
    have hmem : ins ∈ trampolineBody env.dst := List.mem_of_getElem? hget
    have hall : (trampolineBody env.dst).all (fun i => noLoad i && sequential i) = true := rfl
    have hplain := List.all_eq_true.mp hall ins hmem
    rw [Bool.and_eq_true] at hplain
    rw [fetches_trampoline hm hi c c' hpc (fun _ _ => rfl)] at he
    have hne : ins ≠ .ecall := by
      rintro rfl
      exact absurd hplain.2 Bool.false_ne_true
    rcases execInstr_core he hne with ⟨core, hcore, rfl⟩
    rcases run_take_succ hget hfull hrun with ⟨y', hy', hrun'⟩
    exact ⟨.body (k + 1) y₀ y' (by omega) (exec_sequential hplain.2 hcore) hrun'
      (exec_x_eq hplain.1 hy' hx hcore), rfl⟩
  · -- Behind it `t0` is the address of `asm_syscall_hook`.
    have hk18 : k = 18 := by omega
    subst hk18
    have htake : (trampolineBody env.dst).take 18 = trampolineBody env.dst :=
      List.take_of_length_le (by omega)
    rw [htake, hfull, Option.some.injEq] at hrun
    rw [fetches_trampoline hm (trampoline_word rfl) c c' hpc (fun _ _ => rfl)] at he
    rcases execInstr_core he (by simp only [ne_eq, reduceCtorEq, not_false_eq_true]) with
      ⟨core, hcore, rfl⟩
    have hgo : core.pc = env.loc .asmSyscallHook 0 := by
      simp only [exec, Option.some.injEq] at hcore
      rw [← hcore]
      show jumpTarget (c.x.get t0 + (0 : BitVec 12).signExtend 64) = _
      rw [hx, ← hrun, ht0, show (0 : BitVec 12).signExtend 64 = 0#64 by decide, BitVec.add_zero]
      exact jumpTarget_even (env.loc_even _ _)
    refine ⟨.hook 0 (by omega) hgo ⟨fun h => absurd h (by decide), fun h => absurd h (by decide),
      fun h => absurd h (by decide), fun b hb h => ?_⟩, rfl⟩
    exact absurd h (by omega)

end Trampoline

section Assembly

variable {c c' : Conf K} {i : Nat}

/-- The statements of `asm_syscall_hook` at which `t0` matters. -/
def pointed : List Nat := [3, 79, 80, 81, 87, 88, 89, 91, 92, 93]

theorem asmRegs_of_gp {x : Regs} (hi : i ∉ pointed) (hgp : 4 ≤ i → x.get gp = env.rgp) :
    AsmRegs env i x := by
  have hblocks : ∀ b ∈ retBlocks, b.1 + 1 ∈ pointed ∧ b.1 + 2 ∈ pointed ∧ b.1 + 3 ∈ pointed := by
    decide
  refine ⟨hgp, ?_, ?_, ?_⟩
  · rintro (rfl | ⟨b, hb, rfl⟩)
    · exact absurd (by decide) hi
    · exact absurd (hblocks b hb).1 hi
  · rintro ⟨b, hb, rfl⟩
    exact absurd (hblocks b hb).2.1 hi
  · rintro b hb rfl
    exact absurd (hblocks b hb).2.2 hi

/-- A statement that goes on to the next one and leaves `gp` alone. -/
def plainAt (i : Nat) : Bool :=
  match asmSyscallHook[i]? with
  | some (.ins ins) => sequential ins && destination ins != some gp
  | _ => false

theorem plain_step (hp : plainAt i = true) (hi : i + 1 < 98) (hnext : i + 1 ∉ pointed)
    (h3 : i ≠ 3) (hpc : c.pc = env.loc .asmSyscallHook i) (hregs : AsmRegs env i c.x)
    (he : Exec env c c') : Place env sites c'.pc c'.x ∧ c'.activations = c.activations := by
  unfold plainAt at hp
  split at hp
  · rename_i ins htext
    rw [Bool.and_eq_true, bne_iff_ne] at hp
    have hne : ins ≠ .ecall := by
      rintro rfl
      exact absurd hp.1 Bool.false_ne_true
    have hs : Prog.asmSyscallHook.text[i]? = some (.ins ins) := htext
    rw [fetches_stmt c.mem hs c c' hpc (fun _ _ => rfl)] at he
    rcases execInstr_core he hne with ⟨core, hcore, rfl⟩
    refine ⟨.hook (i + 1) hi (exec_sequential hp.1 hcore) (asmRegs_of_gp hnext (fun h4 => ?_)), rfl⟩
    exact (exec_other hp.2 hcore).trans (hregs.gp (by omega))
  · exact absurd hp Bool.false_ne_true

/-- A branch, which goes on to one of two statements. -/
theorem beq_step {rs1 rs2 : Reg} (target : Label)
    (hs : Prog.asmSyscallHook.text[i]? = some (.beq rs1 rs2 target)) (h4 : 4 ≤ i)
    (hi : i + 1 < 98) (hnext : i + 1 ∉ pointed) (ht : target.index < 98)
    (htarget : target.index ∉ pointed) (hpc : c.pc = env.loc .asmSyscallHook i)
    (hregs : AsmRegs env i c.x) (he : Exec env c c') :
    Place env sites c'.pc c'.x ∧ c'.activations = c.activations := by
  rw [exec_stmt_iff hs hpc] at he
  cases he
  refine ⟨?_, rfl⟩
  by_cases heq : c.get rs1 = c.get rs2
  · exact .hook target.index ht (if_pos heq) (asmRegs_of_gp htarget (fun _ => hregs.gp h4))
  · exact .hook (i + 1) hi (if_neg heq) (asmRegs_of_gp hnext (fun _ => hregs.gp h4))

/-- `la t0, relocated_global_pointer`. -/
theorem la_step (hs : Prog.asmSyscallHook.text[i]? = some (.la t0)) (hi : i + 1 < 98)
    (hnext : i + 1 = 3 ∨ ∃ b ∈ retBlocks, i + 1 = b.1 + 1) (h3 : i ≠ 3)
    (hpc : c.pc = env.loc .asmSyscallHook i) (hregs : AsmRegs env i c.x) (he : Exec env c c') :
    Place env sites c'.pc c'.x ∧ c'.activations = c.activations := by
  rw [exec_stmt_iff hs hpc] at he
  cases he
  refine ⟨.hook (i + 1) hi rfl ⟨fun h4 => ?_, fun _ => ?_, ?_, ?_⟩, rfl⟩
  · exact (get_set_other c.x t0 gp env.rgpVar (by decide)).trans (hregs.gp (by omega))
  · exact get_set_self c.x t0 env.rgpVar (by decide)
  · rintro ⟨b, hb, hib⟩
    rcases hnext with hn | ⟨b', hb', hn⟩
    · have hlow := (retBlocks_bounds b hb).1
      omega
    · exact absurd (retBlocks_apart hb' hb (by omega) (by omega) (hn.symm.trans hib)).2 (by decide)
  · intro b hb hib
    rcases hnext with hn | ⟨b', hb', hn⟩
    · have hlow := (retBlocks_bounds b hb).1
      omega
    · exact absurd (retBlocks_apart hb' hb (by omega) (by omega) (hn.symm.trans hib)).2 (by decide)

/-- A doubleword loaded through the variable is `relocated_gp`. -/
theorem load_variable {rd : Reg} {next : Addr} {core : Core} (hm : Installed env c.mem)
    (ht0 : c.x.get t0 = env.rgpVar) (hrd : rd ≠ 0)
    (he : exec id next c.toCore (.load .double false rd t0 0) = some core) :
    core.get rd = env.rgp := by
  simp only [exec, Option.some.injEq] at he
  have haddr : effective c.x t0 0 = env.rgpVar := by
    rw [effective, ht0, show (0 : BitVec 12).signExtend 64 = 0#64 by decide, BitVec.add_zero]
  rw [← he]
  refine (get_set_self _ _ _ hrd).trans ?_
  rw [id, haddr]
  exact (extend_double _).trans hm.rgpVar

/-- `ld gp, 0(t0)`, which ends the window on the way in. -/
theorem reload_step (hm : Installed env c.mem) (hpc : c.pc = env.loc .asmSyscallHook 3)
    (hregs : AsmRegs env 3 c.x) (he : Exec env c c') :
    Place env sites c'.pc c'.x ∧ c'.activations = c.activations := by
  have hs : Prog.asmSyscallHook.text[3]? = some (.ins (.load .double false gp t0 0)) := rfl
  rw [fetches_stmt c.mem hs c c' hpc (fun _ _ => rfl)] at he
  rcases execInstr_core he (by simp only [ne_eq, reduceCtorEq, not_false_eq_true]) with
    ⟨core, hcore, rfl⟩
  refine ⟨.hook 4 (by omega) (exec_sequential rfl hcore) (asmRegs_of_gp (by decide) (fun _ => ?_)),
    rfl⟩
  exact load_variable hm (hregs.pointer (Or.inl rfl)) (by decide) hcore

/-- The rest of a jump to the return sequence: the load of `relocated_gp`,
    the addition of the offset, and the jump. -/
theorem retBlock_step {s w k : Nat} {off : BitVec 12} (hb : (s, w) ∈ retBlocks)
    (htext : ∀ k, k < 4 → Prog.asmSyscallHook.text[s + k]? = (retJump off)[k]?)
    (hoff : env.rgp + off.signExtend 64 = returnWord env w) (hw : w < 14)
    (hk : k = 1 ∨ k = 2 ∨ k = 3) (hm : Installed env c.mem)
    (hpc : c.pc = env.loc .asmSyscallHook (s + k)) (hregs : AsmRegs env (s + k) c.x)
    (he : Exec env c c') : Place env sites c'.pc c'.x ∧ c'.activations = c.activations := by
  have hlow := (retBlocks_bounds _ hb).1
  have hhigh := (retBlocks_bounds _ hb).2
  have hgp := hregs.gp (by omega)
  rcases hk with rfl | rfl | rfl
  · have hs : Prog.asmSyscallHook.text[s + 1]? = some (.ins (.load .double false t0 t0 0)) :=
      htext 1 (by omega)
    rw [fetches_stmt c.mem hs c c' hpc (fun _ _ => rfl)] at he
    rcases execInstr_core he (by simp only [ne_eq, reduceCtorEq, not_false_eq_true]) with
      ⟨core, hcore, rfl⟩
    have hval := load_variable hm (hregs.pointer (Or.inr ⟨_, hb, rfl⟩)) (by decide) hcore
    refine ⟨.hook (s + 2) (by omega) (exec_sequential rfl hcore)
      ⟨fun _ => ?_, ?_, fun _ => hval, ?_⟩, rfl⟩
    · exact (exec_other (by decide) hcore).trans hgp
    · rintro (h3 | ⟨b, hb', heq⟩)
      · omega
      · exact absurd (retBlocks_apart hb hb' (by omega) (by omega) heq).2 (by decide)
    · intro b hb' heq
      exact absurd (retBlocks_apart hb hb' (by omega) (by omega) heq).2 (by decide)
  · have hs : Prog.asmSyscallHook.text[s + 2]? = some (.ins (.addi t0 t0 off)) :=
      htext 2 (by omega)
    rw [fetches_stmt c.mem hs c c' hpc (fun _ _ => rfl)] at he
    rcases execInstr_core he (by simp only [ne_eq, reduceCtorEq, not_false_eq_true]) with
      ⟨core, hcore, rfl⟩
    have hval : core.get t0 = returnWord env w := by
      simp only [exec, Option.some.injEq] at hcore
      rw [← hcore, ← hoff, ← hregs.loaded ⟨_, hb, rfl⟩]
      exact get_set_self _ _ _ (by decide)
    have hgp' : core.get gp = env.rgp := by
      refine (exec_other ?_ hcore).trans hgp
      simp only [destination, ne_eq, Option.some.injEq]
      decide
    refine ⟨.hook (s + 3) (by omega) (exec_sequential rfl hcore) ⟨fun _ => hgp', ?_, ?_, ?_⟩, rfl⟩
    · rintro (h3 | ⟨b, hb', heq⟩)
      · omega
      · exact absurd (retBlocks_apart hb hb' (by omega) (by omega) heq).2 (by decide)
    · rintro ⟨b, hb', heq⟩
      exact absurd (retBlocks_apart hb hb' (by omega) (by omega) heq).2 (by decide)
    · intro b hb' heq
      rw [← (retBlocks_apart hb hb' (by omega) (by omega) heq).1]
      exact hval
  · have hs : Prog.asmSyscallHook.text[s + 3]? = some (.ins (.jalr zero t0 0)) :=
      htext 3 (by omega)
    rw [fetches_stmt c.mem hs c c' hpc (fun _ _ => rfl)] at he
    rcases execInstr_core he (by simp only [ne_eq, reduceCtorEq, not_false_eq_true]) with
      ⟨core, hcore, rfl⟩
    have heven : EvenAddr (returnWord env w) := by
      have hrgp := env.rgp_even
      simp only [EvenAddr, returnWord] at hrgp ⊢
      bv_omega
    have hgo : core.pc = returnWord env w := by
      simp only [exec, Option.some.injEq] at hcore
      rw [← hcore]
      show jumpTarget (c.x.get t0 + (0 : BitVec 12).signExtend 64) = _
      rw [hregs.target _ hb rfl, show (0 : BitVec 12).signExtend 64 = 0#64 by decide,
        BitVec.add_zero]
      exact jumpTarget_even heven
    exact ⟨.ret w hw hgo (fun _ => (exec_other (by decide) hcore).trans hgp), rfl⟩

/-- The statements of `asm_syscall_hook` that are not plain. -/
def specials : List Nat :=
  [2, 3, 5, 38, 74, 76, 77, 78, 79, 80, 81, 83, 85, 86, 87, 88, 89, 90, 91, 92, 93, 97]

theorem asm_table : ∀ i, i < 98 →
    (plainAt i = true ∧ i + 1 < 98 ∧ i + 1 ∉ pointed ∧ i ≠ 3) ∨ i ∈ specials := by decide

/-- One statement of `asm_syscall_hook`. -/
theorem hook_step (hm : Installed env c.mem) (hi : i < 98)
    (hpc : c.pc = env.loc .asmSyscallHook i) (hregs : AsmRegs env i c.x) (he : Exec env c c') :
    Place env sites c'.pc c'.x ∧ c'.activations = c.activations := by
  have hoff56 : env.rgp + (-56 : BitVec 12).signExtend 64 = returnWord env 0 :=
    rgp_add_offset env (by decide)
  have hoff40 : env.rgp + (-40 : BitVec 12).signExtend 64 = returnWord env 4 :=
    rgp_add_offset env (by decide)
  have hoff20 : env.rgp + (-20 : BitVec 12).signExtend 64 = returnWord env 9 :=
    rgp_add_offset env (by decide)
  have hblock56 : ∀ k, k = 1 ∨ k = 2 ∨ k = 3 → i = 78 + k →
      Place env sites c'.pc c'.x ∧ c'.activations = c.activations := by
    rintro k hk rfl
    exact retBlock_step (by decide) (by decide) hoff56 (by decide) hk hm hpc hregs he
  have hblock40 : ∀ k, k = 1 ∨ k = 2 ∨ k = 3 → i = 86 + k →
      Place env sites c'.pc c'.x ∧ c'.activations = c.activations := by
    rintro k hk rfl
    exact retBlock_step (by decide) (by decide) hoff40 (by decide) hk hm hpc hregs he
  have hblock20 : ∀ k, k = 1 ∨ k = 2 ∨ k = 3 → i = 90 + k →
      Place env sites c'.pc c'.x ∧ c'.activations = c.activations := by
    rintro k hk rfl
    exact retBlock_step (by decide) (by decide) hoff20 (by decide) hk hm hpc hregs he
  rcases asm_table i hi with ⟨hp, hlt, hnext, h3⟩ | hspecial
  · exact plain_step hp hlt hnext h3 hpc hregs he
  · simp only [specials, List.mem_cons, List.not_mem_nil, or_false] at hspecial
    -- The cases are in the order of `specials`.
    rcases hspecial with rfl | rfl | rfl | rfl | rfl | rfl | rfl | rfl | h | h | h | rfl | rfl |
      rfl | h | h | h | rfl | h | h | h | rfl
    · exact la_step rfl (by decide) (by decide) (by decide) hpc hregs he
    · exact reload_step hm hpc hregs he
    · exact beq_step .doRtSigreturn rfl (by decide) (by decide) (by decide) (by decide)
        (by decide) hpc hregs he
    · -- The call of `syscall_hook`.
      have hs : Prog.asmSyscallHook.text[38]? = some .call := rfl
      rw [exec_stmt_iff hs hpc] at he
      cases he
      exact ⟨.call rfl (get_set_self c.x ra _ (by decide))
        ((get_set_other c.x ra gp _ (by decide)).trans (hregs.gp (by decide))), rfl⟩
    · exact beq_step .returnPrelude rfl (by decide) (by decide) (by decide) (by decide)
        (by decide) hpc hregs he
    · exact beq_step .handledEcall rfl (by decide) (by decide) (by decide) (by decide)
        (by decide) hpc hregs he
    · -- `ebreak` traps.
      have hs : Prog.asmSyscallHook.text[77]? = some (.ins .ebreak) := rfl
      rw [fetches_stmt c.mem hs c c' hpc (fun _ _ => rfl)] at he
      rcases execInstr_core he (by simp only [ne_eq, reduceCtorEq, not_false_eq_true]) with
        ⟨core, hcore, _⟩
      exact absurd hcore (by simp only [exec, reduceCtorEq, not_false_eq_true])
    · exact la_step rfl (by decide) (by decide) (by decide) hpc hregs he
    · exact hblock56 1 (by decide) h
    · exact hblock56 2 (by decide) h
    · exact hblock56 3 (by decide) h
    · exact beq_step .doClone rfl (by decide) (by decide) (by decide) (by decide)
        (by decide) hpc hregs he
    · exact beq_step .doClone rfl (by decide) (by decide) (by decide) (by decide)
        (by decide) hpc hregs he
    · exact la_step rfl (by decide) (by decide) (by decide) hpc hregs he
    · exact hblock40 1 (by decide) h
    · exact hblock40 2 (by decide) h
    · exact hblock40 3 (by decide) h
    · exact la_step rfl (by decide) (by decide) (by decide) hpc hregs he
    · exact hblock20 1 (by decide) h
    · exact hblock20 2 (by decide) h
    · exact hblock20 3 (by decide) h
    · -- `j return_prelude`.
      have hs : Prog.asmSyscallHook.text[97]? = some (.j .returnPrelude) := rfl
      rw [exec_stmt_iff hs hpc] at he
      cases he
      exact ⟨.hook Label.returnPrelude.index (by decide) rfl
        (asmRegs_of_gp (by decide) (fun _ => hregs.gp (by decide))), rfl⟩

/-- One statement of `syscall_no_intercept`. -/
theorem noIntercept_step (hi : i < 9) (hpc : c.pc = env.loc .syscallNoIntercept i)
    (hgp : c.x.get gp = env.rgp) (hl : Leaves env c.pc → Lands env sites c'.pc)
    (he : Exec env c c') : Place env sites c'.pc c'.x ∧ c'.activations = c.activations := by
  have htable : ∀ i, i < 7 → ∃ ins, syscallNoIntercept[i]? = some (.ins ins) ∧
      sequential ins = true ∧ destination ins ≠ some gp ∧ ins ≠ .ecall := by
    intro i hi
    rcases (by omega : i = 0 ∨ i = 1 ∨ i = 2 ∨ i = 3 ∨ i = 4 ∨ i = 5 ∨ i = 6)
      with rfl | rfl | rfl | rfl | rfl | rfl | rfl
    all_goals exact ⟨_, rfl, rfl, by decide, by decide⟩
  rcases (by omega : i < 7 ∨ i = 7 ∨ i = 8) with hlt | rfl | rfl
  · -- The moves go on to the next statement.
    rcases htable i hlt with ⟨ins, hs, hseq, hdest, hne⟩
    have hs' : Prog.syscallNoIntercept.text[i]? = some (.ins ins) := hs
    rw [fetches_stmt c.mem hs' c c' hpc (fun _ _ => rfl)] at he
    rcases execInstr_core he hne with ⟨core, hcore, rfl⟩
    exact ⟨.noIntercept (i + 1) (by omega) (exec_sequential hseq hcore)
      ((exec_other hdest hcore).trans hgp), rfl⟩
  · -- The system call sets `a0` only.
    have hs : Prog.syscallNoIntercept.text[7]? = some (.ins .ecall) := rfl
    rw [fetches_stmt c.mem hs c c' hpc (fun _ _ => rfl)] at he
    cases he with
    | step _ core hcore =>
        exact absurd hcore (by simp only [exec, reduceCtorEq, not_false_eq_true])
    | ecall res m k' _ =>
        exact ⟨.noIntercept 8 (by omega) rfl
          ((get_set_other c.x a0 gp res (by decide)).trans hgp), rfl⟩
  · -- The return lands where its caller may land.
    have hs : Prog.syscallNoIntercept.text[8]? = some (.ins (.jalr zero ra 0)) := rfl
    have hland := hl (Or.inr (Or.inr hpc))
    rw [fetches_stmt c.mem hs c c' hpc (fun _ _ => rfl)] at he
    rcases execInstr_core he (by simp only [ne_eq, reduceCtorEq, not_false_eq_true]) with
      ⟨core, hcore, rfl⟩
    exact ⟨hland.place ((exec_other (by decide) hcore).trans hgp), rfl⟩

end Assembly

section ReturnSequence

variable {c c' : Conf K} {i : Nat}

/-- A return word that goes on to a word at which `gp` is borrowed. -/
theorem borrowed_step (ins : Instr) (hi : (setupReturn.map decode)[i]? = some (some ins))
    (hseq : sequential ins = true) (hnext : i + 1 < 14) (hb : i + 1 ∈ borrowedWords)
    (hm : Installed env c.mem) (hpc : c.pc = returnWord env i) (he : Exec env c c') :
    Place env sites c'.pc c'.x ∧ c'.activations = c.activations := by
  have hne : ins ≠ .ecall := by
    rintro rfl
    exact absurd hseq Bool.false_ne_true
  rw [fetches_return hm hi c c' hpc (fun _ _ => rfl)] at he
  rcases execInstr_core he hne with ⟨core, hcore, rfl⟩
  exact ⟨.ret (i + 1) hnext (exec_sequential hseq hcore) (fun hnb => absurd hb hnb), rfl⟩

/-- A jump to the last return word. -/
theorem jump_step (imm : BitVec 21)
    (hi : (setupReturn.map decode)[i]? = some (some (.jal zero imm)))
    (himm : returnWord env i + imm.signExtend 64 = returnWord env 13)
    (hm : Installed env c.mem) (hpc : c.pc = returnWord env i) (he : Exec env c c') :
    Place env sites c'.pc c'.x ∧ c'.activations = c.activations := by
  rw [fetches_return hm hi c c' hpc (fun _ _ => rfl)] at he
  rcases execInstr_core he (by simp only [ne_eq, reduceCtorEq, not_false_eq_true]) with
    ⟨core, hcore, rfl⟩
  simp only [exec, Option.some.injEq] at hcore
  refine ⟨.ret 13 (by decide) ?_ (fun hnb => absurd (by decide) hnb), rfl⟩
  show core.pc = _
  rw [← hcore, ← himm, ← hpc]
  rfl

/-- A system call of the return sequence. -/
theorem ecall_step (hi : (setupReturn.map decode)[i]? = some (some .ecall)) (hnext : i + 1 < 14)
    (hgp : i + 1 ∉ borrowedWords → c.x.get gp = env.rgp) (hm : Installed env c.mem)
    (hpc : c.pc = returnWord env i) (he : Exec env c c') :
    Place env sites c'.pc c'.x ∧ c'.activations = c.activations := by
  rw [fetches_return hm hi c c' hpc (fun _ _ => rfl)] at he
  cases he with
  | step _ core hcore => exact absurd hcore (by simp only [exec, reduceCtorEq, not_false_eq_true])
  | ecall res m k' _ =>
      exact ⟨.ret (i + 1) hnext rfl
        (fun hnb => (get_set_other c.x a0 gp res (by decide)).trans (hgp hnb)), rfl⟩

/-- The final jump, whose link value is `relocated_gp`. -/
theorem final_step (hm : Installed env c.mem) (hpc : c.pc = returnWord env 13)
    (hl : Leaves env c.pc → Lands env sites c'.pc) (he : Exec env c c') :
    Place env sites c'.pc c'.x ∧ c'.activations = c.activations := by
  have hland := hl (Or.inr (Or.inl hpc))
  have hi : (setupReturn.map decode)[13]? = some (some (.jalr gp gp 0)) := by decide
  rw [fetches_return hm hi c c' hpc (fun _ _ => rfl)] at he
  rcases execInstr_core he (by simp only [ne_eq, reduceCtorEq, not_false_eq_true]) with
    ⟨core, hcore, rfl⟩
  refine ⟨hland.place ?_, rfl⟩
  simp only [exec, Option.some.injEq] at hcore
  show core.get gp = env.rgp
  rw [← hcore]
  refine (get_set_self c.x gp _ (by decide)).trans ?_
  bv_omega

/-- One word of the return sequence. -/
theorem ret_step (hm : Installed env c.mem) (hi : i < 14) (hpc : c.pc = returnWord env i)
    (hgp : i ∉ borrowedWords → c.x.get gp = env.rgp)
    (hl : Leaves env c.pc → Lands env sites c'.pc) (he : Exec env c c') :
    Place env sites c'.pc c'.x ∧ c'.activations = c.activations := by
  have hjump40 : returnWord env 3 + (40 : BitVec 21).signExtend 64 = returnWord env 13 :=
    returnWord_jump env (by decide)
  have hjump20 : returnWord env 8 + (20 : BitVec 21).signExtend 64 = returnWord env 13 :=
    returnWord_jump env (by decide)
  rcases (by omega : i = 0 ∨ i = 1 ∨ i = 2 ∨ i = 3 ∨ i = 4 ∨ i = 5 ∨ i = 6 ∨ i = 7 ∨ i = 8 ∨
    i = 9 ∨ i = 10 ∨ i = 11 ∨ i = 12 ∨ i = 13) with rfl | rfl | rfl | rfl | rfl | rfl | rfl | rfl |
    rfl | rfl | rfl | rfl | rfl | rfl
  -- The way out of handled calls.
  · exact borrowed_step (.load .double false gp sp 288) (by decide) rfl (by decide)
      (by decide) hm hpc he
  · exact borrowed_step (.load .double false t0 sp 0) (by decide) rfl (by decide)
      (by decide) hm hpc he
  · exact borrowed_step (.addi sp sp 304) (by decide) rfl (by decide) (by decide) hm hpc he
  · exact jump_step 40 (by decide) hjump40 hm hpc he
  -- The way out of forwarded calls.
  · exact ecall_step (by decide) (by decide) (fun _ => hgp (by decide)) hm hpc he
  · exact borrowed_step (.load .double false gp sp 288) (by decide) rfl (by decide)
      (by decide) hm hpc he
  · exact borrowed_step (.load .double false t0 sp 0) (by decide) rfl (by decide)
      (by decide) hm hpc he
  · exact borrowed_step (.addi sp sp 304) (by decide) rfl (by decide) (by decide) hm hpc he
  · exact jump_step 20 (by decide) hjump20 hm hpc he
  -- The way out of `clone`.
  · exact borrowed_step (.load .double false gp sp 288) (by decide) rfl (by decide)
      (by decide) hm hpc he
  · exact borrowed_step (.load .double false t0 sp 0) (by decide) rfl (by decide)
      (by decide) hm hpc he
  · exact borrowed_step (.addi sp sp 304) (by decide) rfl (by decide) (by decide) hm hpc he
  · exact ecall_step (by decide) (by decide) (fun hnb => absurd (by decide) hnb) hm hpc he
  · exact final_step hm hpc hl he

end ReturnSequence

/-- What memory has to hold: vpoline, the patched sites, and a hook that is
    application code. -/
structure Loaded (env : Env K) (sites : Addr → Prop) (m : Mem) : Prop where
  installed : Installed env m
  text : ∀ a, sites a → m.read a 4 = patchedEcall
  hook : env.hookFn m ≠ 0 → App env sites (jumpTarget (env.hookFn m))

theorem Loaded.kept {m m' : Mem} (h : Loaded env sites m) (hk : Kept env sites m m') :
    Loaded env sites m' := by
  have hfn : env.hookFn m' = env.hookFn m :=
    Mem.read_congr (fun k hk' => hk _ (Or.inl (Or.inr (Or.inr (by bv_omega)))))
  refine ⟨installed_of_own h.installed (fun a ha => hk a (Or.inl ha)), fun a ha => ?_, ?_⟩
  · rw [← h.text a ha]
    exact Mem.read_congr (fun k hk' => hk _ (Or.inr ⟨a, ha, by bv_omega⟩))
  · rw [hfn]
    exact h.hook

/-- Every activation of `syscall_hook` returns behind its call. -/
def Returns (env : Env K) (activations : List Activation) : Prop :=
  ∀ act ∈ activations, act.ra = env.loc .asmSyscallHook 39

/-- One instruction of a thread. The cases are the places it can be at. -/
theorem Place.step (hs : PatchedSites env sites) {c c' : Conf K}
    (h : Place env sites c.pc c.x) (hacts : Returns env c.activations)
    (hm : Loaded env sites c.mem) (he : Exec env c c')
    (hf : env.region c.pc = .foreign → ForeignStep c c')
    (hl : Leaves env c.pc → Lands env sites c'.pc) :
    Place env sites c'.pc c'.x ∧ Returns env c'.activations := by
  have hsame : Place env sites c'.pc c'.x ∧ c'.activations = c.activations →
      Place env sites c'.pc c'.x ∧ Returns env c'.activations := by
    rintro ⟨hplace, heq⟩
    rw [heq]
    exact ⟨hplace, hacts⟩
  have hback : jumpTarget (env.loc .asmSyscallHook 39) = env.loc .asmSyscallHook 39 :=
    jumpTarget_even (env.loc_even _ _)
  cases h with
  | app happ hgp =>
      rcases happ with hforeign | hsite
      · have hfs := hf hforeign
        exact hsame ⟨(hl (Or.inl hforeign)).place (hfs.gp.trans hgp), hfs.activations⟩
      · rcases site_step hs hsite (hm.text _ hsite) hgp he with ⟨hpc, hact⟩
        exact hsame ⟨.entry hpc, hact⟩
  | entry hpc => exact hsame (entry_step hm.installed hpc he)
  | body k y₀ y hk hpc hrun hx => exact hsame (body_step hm.installed hk hpc hrun hx he)
  | hook i hi hpc hregs => exact hsame (hook_step hm.installed hi hpc hregs he)
  | noIntercept i hi hpc hgp => exact hsame (noIntercept_step hi hpc hgp hl he)
  | call hpc hra hgp =>
      have hregion : env.region c.pc = .syscallHook := hpc ▸ env.region_syscallHook
      simp only [Exec, hregion] at he
      rcases he with hnull | ⟨act, hcall⟩
      · -- Without a hook it returns behind the call.
        have hpc' : c'.pc = env.loc .asmSyscallHook 39 := by
          rw [hnull.pc, show c.x ra = c.x.get ra from rfl, hra, hback]
        exact hsame ⟨.hook 39 (by decide) hpc' (asmRegs_of_gp (by decide)
          (fun _ => hnull.gp.trans hgp)), hnull.activations⟩
      · -- With one it leaves an activation behind.
        refine ⟨.app ?_ (hcall.gp.trans hgp), ?_⟩
        · rw [hcall.pc]
          exact hm.hook hcall.hook
        · rw [hcall.activations]
          intro a ha
          rcases List.mem_cons.mp ha with rfl | ha
          · exact hcall.act_ra.trans hra
          · exact hacts a ha
  | hookRet hpc hgp =>
      have hregion : env.region c.pc = .hookReturn := hpc ▸ env.region_hookRet
      simp only [Exec, hregion] at he
      rcases he with ⟨act, rest, hret⟩
      -- The hook returns through the last activation.
      have hra : act.ra = env.loc .asmSyscallHook 39 :=
        hacts act (by rw [hret.pending]; exact List.mem_cons_self)
      have hpc' : c'.pc = env.loc .asmSyscallHook 39 := by rw [hret.pc, hra, hback]
      refine ⟨.hook 39 (by decide) hpc' (asmRegs_of_gp (by decide)
        (fun _ => hret.gp.trans hgp)), ?_⟩
      rw [hret.activations]
      intro a ha
      exact hacts a (by rw [hret.pending]; exact List.mem_cons_of_mem act ha)
  | ret i hi hpc hgp => exact hsame (ret_step hm.installed hi hpc hgp hl he)

end Vpoline
