import Vpoline.Core.Machine

/-!
# Installing vpoline

What `setup_shadow_page_trampoline`, `setup_return` and the assignment to
`relocated_global_pointer` leave in memory, and a process in which they have
run.

`install` performs the stores, and `installed_install` says that they do not
disturb one another: the two pieces of code are adjacent and the variable is
elsewhere.

`flatEnv` is a process with everything at a fixed address, around any hook and
any kernel. It shows that the laws of `Env` can be met, and gives the results
about all processes one to be read against.

## Main definitions

* `install`: The stores of the initialisation.
* `flatEnv`: A process with everything at a fixed address.
* `flatHook`, `flatKernel`: A hook and a kernel for it.
* `flatSite`: A thread of that process at a patched site.

## Theorems

* `installed_install`: The stores install vpoline.
* `flatSite_atSite`: The thread is at a patched site.
-/

namespace Vpoline

open RV64

/-- The trampoline and the return sequence around `relocated_gp`, and the
    variable that points there. -/
def install {K : Type} (env : Env K) (m : Mem) : Mem :=
  ((m.storeWords env.rgp (setupShadowPageTrampoline env.dst)).storeWords (env.rgp - 56)
    setupReturn).write env.rgpVar 8 env.rgp

/-- The stores install vpoline, if the variable is not inside the code. -/
theorem installed_install {K : Type} (env : Env K) (m : Mem)
    (hvar : ∀ b, (b - (env.rgp - 56)).toNat < 136 → 8 ≤ (b - env.rgpVar).toNat) :
    Installed env (install env m) := by
  have hlen := length_trampoline env.dst
  refine ⟨?_, ?_, ?_⟩
  · -- The return sequence lies right below the trampoline.
    refine (wordsAt_storeWords _ m env.rgp (by rw [hlen]; decide)).congr (by rw [hlen]; decide)
      (fun b hb => ?_)
    rw [hlen] at hb
    rw [install, Mem.write_outside (hvar b (by bv_omega)), Mem.storeWords_outside]
    rw [length_return, retSequenceSize]
    bv_omega
  · refine (wordsAt_storeWords _ (m.storeWords env.rgp (setupShadowPageTrampoline env.dst)) _
      (by decide)).congr (by decide) (fun b hb => ?_)
    rw [length_return, retSequenceSize] at hb
    rw [install, Mem.write_outside (hvar b (by omega))]
  · exact Mem.read_write_same _ _ 8 _ (by decide)

/-- The address of each assembly statement in the flat process. -/
def flatLoc : Prog → Nat → Addr
  | .asmSyscallHook, i => 0x30000 + BitVec.ofNat 64 (4 * i)
  | .syscallNoIntercept, i => 0x31000 + BitVec.ofNat 64 (4 * i)

/-- The memory map of the flat process: the page around `relocated_gp`, one
    patched site, the assembly, `syscall_hook`, and foreign code. -/
def flatRegion (a : Addr) : Region :=
  if 0xffc8 ≤ a.toNat ∧ a.toNat < 0x10050 then .words
  else if a.toNat = 0x40000 then .words
  else if 0x30000 ≤ a.toNat ∧ a.toNat < 0x30000 + 4 * 98 then
    .asm .asmSyscallHook ((a.toNat - 0x30000) / 4)
  else if 0x31000 ≤ a.toNat ∧ a.toNat < 0x31000 + 4 * 9 then
    .asm .syscallNoIntercept ((a.toNat - 0x31000) / 4)
  else if a.toNat = 0x32000 then .syscallHook
  else if a.toNat = 0x32010 then .hookReturn
  else .foreign

theorem flatRegion_loc : ∀ p i, i < p.text.length → flatRegion (flatLoc p i) = .asm p i := by
  intro p i hi
  cases p with
  | asmSyscallHook =>
      have hlt : i < 98 := hi
      have hnat : (flatLoc .asmSyscallHook i).toNat = 0x30000 + 4 * i := by
        simp only [flatLoc]
        bv_omega
      simp only [flatRegion, hnat]
      rw [if_neg (by omega), if_neg (by omega), if_pos (by omega)]
      congr 1
      omega
  | syscallNoIntercept =>
      have hlt : i < 9 := hi
      have hnat : (flatLoc .syscallNoIntercept i).toNat = 0x31000 + 4 * i := by
        simp only [flatLoc]
        bv_omega
      simp only [flatRegion, hnat]
      rw [if_neg (by omega), if_neg (by omega), if_neg (by omega), if_pos (by omega)]
      congr 1
      omega

theorem flatRegion_trampoline (i : Nat) (hi : i < 20) :
    flatRegion (0x10000 + BitVec.ofNat 64 (4 * i)) = .words := by
  rw [flatRegion, if_pos (by bv_omega)]

theorem flatRegion_return (i : Nat) (hi : i < 14) :
    flatRegion (0x10000 - 56 + BitVec.ofNat 64 (4 * i)) = .words := by
  rw [flatRegion, if_pos (by bv_omega)]

theorem flatRegion_syscallHook : flatRegion 0x32000 = .syscallHook := by decide

theorem flatRegion_hookRet : flatRegion 0x32010 = .hookReturn := by decide

theorem flat_rgp_even : EvenAddr 0x10000 := by decide

theorem flatLoc_even (p : Prog) (i : Nat) : EvenAddr (flatLoc p i) := by
  cases p <;> simp only [flatLoc, EvenAddr] <;> bv_omega

theorem flat_hookRet_even : EvenAddr 0x32010 := by decide

theorem flat_own_not_stack (a : Addr) (h : ownByte 0x10000 0x20000 0x20008 a) :
    ¬ (0x70000000 ≤ a.toNat ∧ a.toNat < 0x80000000) := by
  rcases h with h | h | h <;> bv_omega

/-- A process with everything at a fixed address. -/
def flatEnv {K : Type} (foreign : Conf K → Conf K → Prop)
    (kernel : Core → K → Word → Mem → K → Prop)
    (htrace : ∀ c c', foreign c c' → c.trace <+: c'.trace) : Env K where
  rgp := 0x10000
  rgpVar := 0x20000
  hookFnVar := 0x20008
  loc := flatLoc
  syscallHook := 0x32000
  hookRet := 0x32010
  cframe := 32
  resultOff := 8
  region := flatRegion
  stack a := 0x70000000 ≤ a.toNat ∧ a.toNat < 0x80000000
  foreign := foreign
  kernel := kernel
  region_trampoline := flatRegion_trampoline
  region_return := flatRegion_return
  region_loc := flatRegion_loc
  region_syscallHook := flatRegion_syscallHook
  region_hookRet := flatRegion_hookRet
  rgp_even := flat_rgp_even
  loc_even := flatLoc_even
  hookRet_even := flat_hookRet_even
  result_fits := by decide
  cframe_small := by decide
  own_not_stack := flat_own_not_stack
  foreign_trace := htrace

/-- Foreign code at `0x50000` that returns `v` at once. -/
def flatHook {K : Type} (v : Word) (c c' : Conf K) : Prop :=
  c.pc = 0x50000 ∧ c' = { c with pc := jumpTarget (c.x ra), x := c.x.set a0 v }

theorem flatHook_trace {K : Type} (v : Word) (c c' : Conf K) (h : flatHook v c c') :
    c.trace <+: c'.trace := by
  refine ⟨[], ?_⟩
  rw [List.append_nil, h.2]

/-- A kernel that answers `0` to everything and counts its calls. -/
def flatKernel (k : Core) (kst : Nat) (res : Word) (m : Mem) (kst' : Nat) : Prop :=
  res = 0 ∧ m = k.mem ∧ kst' = kst + 1

/-- A thread of the flat process at its patched site, about to make system
    call `nr` with `hook` in `hook_fn`. -/
def flatSite {K : Type} (env : Env K) (hook nr : Word) (kst : K) : Conf K where
  pc := 0x40000
  x r := if r = sp then 0x7fff0000 else if r = gp then 0x10000 else if r = a7 then nr else 0
  f _ := 0
  mem := (install env (Mem.storeWords (fun _ => 0) 0x40000 [patchedEcall])).write 0x20008 8 hook
  activations := []
  kst := kst
  trace := []

section Flat

variable {K : Type} {foreign : Conf K → Conf K → Prop}
  {kernel : Core → K → Word → Mem → K → Prop}
  {htrace : ∀ c c', foreign c c' → c.trace <+: c'.trace}

theorem flatSite_hookFn (hook nr : Word) (kst : K) :
    (flatEnv foreign kernel htrace).hookFn
      (flatSite (flatEnv foreign kernel htrace) hook nr kst).mem = hook :=
  Mem.read_write_same _ _ 8 _ (by decide)

theorem flatSite_installed (hook nr : Word) (kst : K) :
    Installed (flatEnv foreign kernel htrace)
      (flatSite (flatEnv foreign kernel htrace) hook nr kst).mem := by
  have hinst := installed_install (flatEnv foreign kernel htrace)
    (Mem.storeWords (fun _ => 0) 0x40000 [patchedEcall])
    (fun b hb => by simp only [flatEnv] at hb ⊢; bv_omega)
  -- `hook_fn` lies beside everything that has been installed.
  have hout : ∀ b : Addr, (b - 0xffc8).toNat < 136 ∨ (b - 0x20000).toNat < 8 →
      8 ≤ (b - 0x20008).toNat := fun b hb => by bv_omega
  refine ⟨hinst.trampoline.congr (by rw [length_trampoline]; decide) (fun b hb => ?_),
    hinst.ret.congr (by decide) (fun b hb => ?_), ?_⟩
  · rw [length_trampoline] at hb
    simp only [flatEnv] at hb
    exact Mem.write_outside (hout b (Or.inl (by bv_omega)))
  · rw [length_return, retSequenceSize] at hb
    simp only [flatEnv] at hb
    exact Mem.write_outside (hout b (Or.inl (by bv_omega)))
  · rw [← hinst.rgpVar]
    refine Mem.read_congr (fun k hk => Mem.write_outside (hout _ (Or.inr ?_)))
    simp only [flatEnv]
    bv_omega

theorem flatSite_word (env : Env K) (hook nr : Word) (kst : K) (hrgp : env.rgp = 0x10000)
    (hvar : env.rgpVar = 0x20000) :
    (flatSite env hook nr kst).mem.read 0x40000 4 = patchedEcall := by
  have hstored := wordsAt_storeWords [patchedEcall] (fun _ => 0) 0x40000 (by decide) 0 (by decide)
  rw [Nat.mul_zero, BitVec.add_zero] at hstored
  rw [List.getElem_cons_zero] at hstored
  rw [← hstored]
  refine Mem.read_congr (fun k hk => ?_)
  simp only [flatSite, install, hrgp, hvar]
  rw [Mem.write_outside (by bv_omega), Mem.write_outside (by bv_omega), Mem.storeWords_outside,
    Mem.storeWords_outside]
  · rw [length_trampoline]
    bv_omega
  · rw [length_return, retSequenceSize]
    bv_omega

/-- The thread is at a patched site, as every result about sites expects. -/
theorem flatSite_atSite (hook nr : Word) (kst : K) :
    AtSite (flatEnv foreign kernel htrace)
      (flatSite (flatEnv foreign kernel htrace) hook nr kst) where
  region := show flatRegion 0x40000 = .words by decide
  even := show EvenAddr 0x40000 by decide
  word := flatSite_word _ hook nr kst rfl rfl
  text k hk := by
    simp only [flatEnv, flatSite]
    bv_omega
  gp := rfl
  installed := flatSite_installed hook nr kst
  room := by
    have hsp : (flatSite (flatEnv foreign kernel htrace) hook nr kst).x sp = 0x7fff0000 := rfl
    have hsize : frameSize + (flatEnv foreign kernel htrace).cframe = 336 := rfl
    refine ⟨by rw [hsp, hsize]; decide, fun a hlo hhi => ?_⟩
    rw [hsp] at hlo hhi
    rw [hsize] at hlo
    simp only [flatEnv]
    bv_omega

/-- A step of foreign code in the flat process. -/
theorem flat_step_foreign {c : Conf K} (h : flatRegion c.pc = .foreign) (c' : Conf K) :
    Step (flatEnv foreign kernel htrace) c c' ↔
      ∃ m, AgreeAbove (flatEnv foreign kernel htrace).stack (c.x sp) c.mem m ∧
        foreign { c with mem := m } c' := by
  have hr : (flatEnv foreign kernel htrace).region c.pc = .foreign := h
  simp only [Step, Exec, hr]
  exact Iff.rfl

end Flat

end Vpoline
