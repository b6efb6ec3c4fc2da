import Vpoline.Theory.Flow
import Vpoline.Theory.Intercepted

/-!
# No System Call Without the Hook's Consent

The hook decides whether a system call of the program happens. This module
shows that nothing gets past it: along every run, with signals delivered
between any two instructions outside the windows of `gp`, the system calls
that the return sequence issues are covered by hook returns that asked for
one. Each consent is good for one call. Handlers that interrupt vpoline, run
interceptions of their own and return cannot use the consent of the code they
interrupt, and cannot multiply it.

The exception is `rt_sigreturn`, which vpoline forwards on its own account.

The proof is by book-keeping. Between the hook's return and the system call a
thread `Owes` a call, which is visible from where it is and from the register
that says which way it is going: `a1`, then `t0`, then `a7`. A context that a
handler returns to owes in the same way. Calls made and calls owed together
never exceed the consents. The registers are enough for that. What the frame
holds plays no role, so a hook that overwrites the saved registers can change
which call is made but not how many are.

## Main definitions

* `Event.forwarded`, `Event.consent`: The two sides of the account.
* `Event.sourced`: Where a system call can come from.
* `Owes`: A thread on its way to a system call.
* `Checked`: The registers around the `rt_sigreturn` check.
* `Accounted`: One instruction does not overdraw.
* `Ledger`: The invariant.

## Theorems

* `Accounted.straight`, `Accounted.branch`, `Accounted.word`,
  `Accounted.issue`, `Accounted.hookReturn`: The instructions that matter.
* `Flow.accounted`: Every instruction of a thread.
* `Ledger.step`: One step, signals included.
* `calls_mediated`: Every run.
-/

namespace Vpoline

open RV64

variable {K : Type} {env : Env K} {sites : Addr → Prop}

/-- A system call that the return sequence issues, `rt_sigreturn` apart. -/
def Event.forwarded (env : Env K) : Event K → Bool
  | .ecall c _ => (c.pc == returnWord env 4 || c.pc == returnWord env 12) && c.x a7 != 139
  | _ => false

/-- A hook that returns and asks for its call to be forwarded. -/
def Event.consent : Event K → Bool
  | .hookReturn c _ => forwardToKernel c.x
  | _ => false

/-- System calls come from application code, from `syscall_no_intercept` and
    from two words of the return sequence. -/
def Event.sourced (env : Env K) : Event K → Prop
  | .ecall c _ => env.region c.pc = .foreign ∨ c.pc = env.loc .syscallNoIntercept 7 ∨
      c.pc = returnWord env 4 ∨ c.pc = returnWord env 12
  | _ => True

/-- The statements of `asm_syscall_hook` between the hook's return and the
    jump to a system call, with the register that leads there. -/
def OwesAt (i : Nat) (x : Regs) : Prop :=
  i = 39 ∧ x.get a1 = 0 ∨ (40 ≤ i ∧ i ≤ 74) ∧ x.get t0 = 0 ∨ (82 ≤ i ∧ i ≤ 93) ∧ x.get a7 ≠ 139

theorem not_owesAt {i : Nat} {x : Regs} (h : i < 39 ∨ 74 < i ∧ i < 82 ∨ 93 < i) :
    ¬ OwesAt i x := by
  rintro (⟨hi, _⟩ | ⟨hi, _⟩ | ⟨hi, _⟩) <;> omega

theorem owesAt_leaving {i : Nat} {x : Regs} (h : 82 ≤ i ∧ i ≤ 93) :
    OwesAt i x ↔ x.get a7 ≠ 139 := by
  constructor
  · rintro (⟨hi, _⟩ | ⟨hi, _⟩ | ⟨_, hne⟩)
    · omega
    · omega
    · exact hne
  · exact fun hne => Or.inr (Or.inr ⟨h, hne⟩)

/-- The return words that lead to a system call. -/
def owingWords : List Nat := [4, 9, 10, 11, 12]

/-- The thread is on its way to a system call other than `rt_sigreturn`. -/
def Owes (env : Env K) (pc : Addr) (x : Regs) : Prop :=
  (∃ i, i < 98 ∧ pc = env.loc .asmSyscallHook i ∧ OwesAt i x) ∨
  (∃ i, i ∈ owingWords ∧ pc = returnWord env i ∧ x.get a7 ≠ 139)

/-- The `rt_sigreturn` check compares with `139`, and only `rt_sigreturn`
    takes the branch. -/
structure Checked (env : Env K) (pc : Addr) (x : Regs) : Prop where
  number : pc = env.loc .asmSyscallHook 5 → x.get t0 = 139
  branch : ∀ i, 94 ≤ i → i < 98 → pc = env.loc .asmSyscallHook i → x.get a7 = 139

/-- Neither in `asm_syscall_hook` nor in the return sequence. -/
structure Idle (env : Env K) (pc : Addr) : Prop where
  asm : ∀ i, env.region pc ≠ .asm .asmSyscallHook i
  words : env.region pc = .words → 56 ≤ (pc - (env.rgp - 56)).toNat

section Places

variable {pc : Addr} {x : Regs} {i : Nat}

theorem owingWords_lt : ∀ i ∈ owingWords, i < 14 := by decide

theorem owes_loc (hi : i < 98) : Owes env (env.loc .asmSyscallHook i) x ↔ OwesAt i x := by
  constructor
  · rintro (⟨j, hj, heq, ho⟩ | ⟨j, hj, heq, _⟩)
    · rw [loc_injective hi hj heq]
      exact ho
    · exact absurd heq (loc_ne_returnWord hi (owingWords_lt j hj))
  · exact fun ho => Or.inl ⟨i, hi, rfl, ho⟩

theorem owes_word (hi : i < 14) :
    Owes env (returnWord env i) x ↔ i ∈ owingWords ∧ x.get a7 ≠ 139 := by
  constructor
  · rintro (⟨j, hj, heq, _⟩ | ⟨j, hj, heq, ha7⟩)
    · exact absurd heq.symm (loc_ne_returnWord hj hi)
    · have hlt := owingWords_lt j hj
      have hij : i = j := by
        simp only [returnWord] at heq
        bv_omega
      rw [hij]
      exact ⟨hj, ha7⟩
  · exact fun h => Or.inr ⟨i, h.1, rfl, h.2⟩

theorem checked_word (hi : i < 14) : Checked env (returnWord env i) x :=
  ⟨fun h => absurd h.symm (loc_ne_returnWord (by decide) hi),
    fun _ _ hj h => absurd h.symm (loc_ne_returnWord hj hi)⟩

theorem Idle.not_owes (h : Idle env pc) : ¬ Owes env pc x := by
  rintro (⟨i, hi, rfl, _⟩ | ⟨i, hi, rfl, _⟩)
  · exact h.asm i (env.region_loc .asmSyscallHook i hi)
  · have hlt := owingWords_lt i hi
    have hfar := h.words (env.region_return i hlt)
    rw [returnWord] at hfar
    bv_omega

theorem Idle.checked (h : Idle env pc) : Checked env pc x := by
  refine ⟨?_, ?_⟩
  · rintro rfl
    exact absurd (env.region_loc .asmSyscallHook 5 (by decide)) (h.asm 5)
  · rintro i _ hi rfl
    exact absurd (env.region_loc .asmSyscallHook i hi) (h.asm i)

/-- Any address under another rule is idle. -/
theorem idle_of_region (hasm : ∀ i, env.region pc ≠ .asm .asmSyscallHook i)
    (hwords : env.region pc ≠ .words) : Idle env pc :=
  ⟨hasm, fun h => absurd h hwords⟩

theorem idle_noIntercept (hi : i < 9) : Idle env (env.loc .syscallNoIntercept i) := by
  have hregion := env.region_loc .syscallNoIntercept i hi
  refine idle_of_region (fun j => ?_) ?_
  · rw [hregion]
    simp only [ne_eq, Region.asm.injEq, reduceCtorEq, false_and, not_false_eq_true]
  · rw [hregion]
    simp only [ne_eq, reduceCtorEq, not_false_eq_true]

theorem idle_trampoline (hi : i < 20) : Idle env (env.rgp + BitVec.ofNat 64 (4 * i)) := by
  refine ⟨fun j => ?_, fun _ => by bv_omega⟩
  rw [env.region_trampoline i hi]
  simp only [ne_eq, reduceCtorEq, not_false_eq_true]

theorem App.idle (hs : PatchedSites env sites) (h : App env sites pc) : Idle env pc := by
  rcases h with hforeign | hsite
  · refine idle_of_region (fun j => ?_) ?_ <;> rw [hforeign] <;>
      simp only [ne_eq, reduceCtorEq, not_false_eq_true]
  · have hregion := hs.region pc hsite
    have hapart := hs.apart pc hsite
    refine ⟨fun j => ?_, fun _ => by omega⟩
    rw [hregion]
    simp only [ne_eq, reduceCtorEq, not_false_eq_true]

theorem Lands.idle (hs : PatchedSites env sites) (h : Lands env sites pc) : Idle env pc := by
  rcases h with happ | rfl | rfl
  · exact happ.idle hs
  · exact idle_noIntercept (by decide)
  · refine idle_of_region (fun j => ?_) ?_ <;> rw [env.region_hookRet] <;>
      simp only [ne_eq, reduceCtorEq, not_false_eq_true]

end Places

open Classical in
/-- What a thread owes, as a number. -/
noncomputable def debt (env : Env K) (pc : Addr) (x : Regs) : Nat :=
  if Owes env pc x then 1 else 0

theorem debt_eq_zero {pc : Addr} {x : Regs} (h : ¬ Owes env pc x) : debt env pc x = 0 := if_neg h

theorem debt_eq_one {pc : Addr} {x : Regs} (h : Owes env pc x) : debt env pc x = 1 := if_pos h

theorem debt_le {pc pc' : Addr} {x x' : Regs} (h : Owes env pc' x' → Owes env pc x) :
    debt env pc' x' ≤ debt env pc x := by
  by_cases ho : Owes env pc' x'
  · rw [debt_eq_one ho, debt_eq_one (h ho)]
  · rw [debt_eq_zero ho]
    omega

/-- An instruction that records `es` does not overdraw: what it pays out and
    what is owed afterwards is covered by what was owed and what comes in. -/
structure Accounted (env : Env K) (c c' : Conf K) : Prop where
  checked : Checked env c'.pc c'.x
  balance : ∃ es, c'.trace = c.trace ++ es ∧ (∀ e ∈ es, e.sourced env) ∧
    es.countP (Event.forwarded env) + debt env c'.pc c'.x ≤
      debt env c.pc c.x + es.countP Event.consent

section Steps

variable {c c' : Conf K}

/-- An instruction that records nothing. -/
theorem Accounted.quiet (htrace : c'.trace = c.trace) (hchecked : Checked env c'.pc c'.x)
    (h : Owes env c'.pc c'.x → Owes env c.pc c.x) : Accounted env c c' := by
  refine ⟨hchecked, [], ?_, ?_, ?_⟩
  · rw [htrace, List.append_nil]
  · exact fun e he => absurd he List.not_mem_nil
  · simp only [List.countP_nil, Nat.zero_add, Nat.add_zero]
    exact debt_le h

/-- An instruction that ends where nothing is owed and records nothing. -/
theorem Accounted.idle (htrace : c'.trace = c.trace) (h : Idle env c'.pc) : Accounted env c c' :=
  .quiet htrace h.checked (fun ho => absurd ho h.not_owes)

/-- A place that `asm_syscall_hook` leads to, where nothing needs to be known
    about the registers. -/
theorem checked_loc {i : Nat} {x : Regs} (hi : i < 94) (h5 : i ≠ 5) :
    Checked env (env.loc .asmSyscallHook i) x :=
  ⟨fun h => absurd (loc_injective (by omega) (by decide) h) h5,
    fun j hj hj98 h => absurd (loc_injective (by omega) hj98 h) (by omega)⟩

end Steps

section Assembly

variable {c c' : Conf K} {i : Nat}

/-- What the account needs of a straight statement of `asm_syscall_hook`: it
    does not lead into one of the stretches from outside, and within one it
    leaves the register alone that the account goes by. -/
def KeepsAccount (i : Nat) (s : Stmt) : Prop :=
  i + 1 ≠ 5 ∧ i + 1 ∉ [39, 40, 82, 94] ∧
    (40 ≤ i → i ≤ 73 → s.writes ≠ some t0) ∧ (82 ≤ i → s.writes ≠ some a7)

instance (i : Nat) (s : Stmt) : Decidable (KeepsAccount i s) := inferInstanceAs (Decidable (_ ∧ _))

theorem keepsAccount_table : ∀ i, i < 98 →
    ∀ s ∈ asmSyscallHook[i]?, s.straight = true → KeepsAccount i s ∨ i = 4 ∨ i = 39 := by
  decide

/-- A statement that goes on to the next one. -/
theorem Accounted.straight {s : Stmt} (hs : asmSyscallHook[i]? = some s)
    (hst : s.straight = true) (hlt : i + 1 < 98) (hpc : c.pc = env.loc .asmSyscallHook i)
    (hpc' : c'.pc = env.loc .asmSyscallHook (i + 1)) (htrace : c'.trace = c.trace)
    (hregs : ∀ r, s.writes ≠ some r → c'.x.get r = c.x.get r)
    (hexec : ∀ ins, s = .ins ins →
      exec id (env.loc .asmSyscallHook (i + 1)) c.toCore ins = some c'.toCore)
    (hc : Checked env c.pc c.x) : Accounted env c c' := by
  rcases keepsAccount_table i (by omega) s hs hst with ⟨h5, hin, ht0, ha7⟩ | rfl | rfl
  · simp only [List.mem_cons, List.not_mem_nil, or_false, not_or] at hin
    refine .quiet htrace ⟨fun h => ?_, fun j hj hj98 h => ?_⟩ ?_
    · exact absurd (loc_injective hlt (by decide) (hpc'.symm.trans h)) h5
    -- Inside the branch of `rt_sigreturn` the number is still the one that was checked.
    · have hij := loc_injective hlt hj98 (hpc'.symm.trans h)
      rw [hregs a7 (ha7 (by omega))]
      exact hc.branch i (by omega) (by omega) hpc
    -- Within a stretch, the register that decides is not written.
    · rw [hpc', hpc, owes_loc hlt, owes_loc (by omega)]
      rintro (⟨h39, _⟩ | ⟨hr, hzero⟩ | ⟨hr, hne⟩)
      · exact absurd h39 hin.1
      · rw [hregs t0 (ht0 (by omega) (by omega))] at hzero
        exact Or.inr (Or.inl ⟨by omega, hzero⟩)
      · rw [hregs a7 (ha7 (by omega))] at hne
        exact Or.inr (Or.inr ⟨by omega, hne⟩)
  · -- `li t0, 139` in front of the check.
    have hval : c'.x.get t0 = 139 := by
      cases hs
      refine (addi_value (by decide) (hexec _ rfl)).trans ?_
      rw [show c.get zero = 0 from get_zero c.x]
      decide
    refine .quiet htrace ⟨fun _ => hval, fun j hj hj98 h => ?_⟩ ?_
    · exact absurd (loc_injective (by decide) hj98 (hpc'.symm.trans h)) (by omega)
    · rw [hpc', owes_loc (by decide)]
      exact fun h => absurd h (not_owesAt (by decide))
  · -- `mv t0, a1` behind the return of `syscall_hook`.
    have hval : c'.x.get t0 = c.x.get a1 := by
      cases hs
      exact mv_value (by decide) (hexec _ rfl)
    refine .quiet htrace (hpc' ▸ checked_loc (by decide) (by decide)) ?_
    rw [hpc', hpc, owes_loc (by decide), owes_loc (by decide)]
    rintro (⟨h, _⟩ | ⟨_, hzero⟩ | ⟨h, _⟩)
    · omega
    · exact Or.inl ⟨rfl, hval.symm.trans hzero⟩
    · omega

/-- An instruction that goes to statement `j` and changes no register. -/
theorem Accounted.goto {j : Nat} (hj : j < 98) (h5 : j ≠ 5)
    (hpc' : c'.pc = env.loc .asmSyscallHook j) (hx : c'.x = c.x) (htrace : c'.trace = c.trace)
    (hbranch : 94 ≤ j → c.x.get a7 = 139) (howe : OwesAt j c.x → Owes env c.pc c.x) :
    Accounted env c c' := by
  refine .quiet htrace ⟨fun h => ?_, fun j' hlow hhigh h => ?_⟩ ?_
  · exact absurd (loc_injective hj (by decide) (hpc'.symm.trans h)) h5
  · have hjj := loc_injective hj hhigh (hpc'.symm.trans h)
    rw [hx]
    exact hbranch (by omega)
  · rw [hpc', hx, owes_loc hj]
    exact howe

/-- One that goes where no call is owed. -/
theorem Accounted.goto_free {j : Nat} (hj : j < 39 ∨ 74 < j ∧ j < 82) (h5 : j ≠ 5)
    (hpc' : c'.pc = env.loc .asmSyscallHook j) (hx : c'.x = c.x) (htrace : c'.trace = c.trace) :
    Accounted env c c' :=
  .goto (by omega) h5 hpc' hx htrace (fun h => absurd h (by omega))
    (fun h => absurd h (not_owesAt (by omega)))

/-- One on the way out, where `a7` decides before and after. -/
theorem Accounted.goto_leaving {j : Nat} (hj : 82 ≤ j ∧ j ≤ 93) (hi : 82 ≤ i ∧ i ≤ 93)
    (hpc : c.pc = env.loc .asmSyscallHook i) (hpc' : c'.pc = env.loc .asmSyscallHook j)
    (hx : c'.x = c.x) (htrace : c'.trace = c.trace) : Accounted env c c' := by
  refine .goto (by omega) (by omega) hpc' hx htrace (fun h => absurd h (by omega)) (fun ho => ?_)
  rw [owesAt_leaving hj] at ho
  rw [hpc, owes_loc (by omega), owesAt_leaving hi]
  exact ho

/-- The branches, which are where it is decided whether a call is made. -/
theorem Accounted.branch {rs1 rs2 : Reg} {target : Nat}
    (hb : (i, rs1, rs2, target) ∈ asmBranches) (hpc : c.pc = env.loc .asmSyscallHook i)
    (hx : c'.x = c.x) (htrace : c'.trace = c.trace)
    (hgo : c.x.get rs1 = c.x.get rs2 ∧ c'.pc = env.loc .asmSyscallHook target ∨
      c.x.get rs1 ≠ c.x.get rs2 ∧ c'.pc = env.loc .asmSyscallHook (i + 1))
    (hc : Checked env c.pc c.x) : Accounted env c c' := by
  simp only [asmBranches, List.mem_cons, Prod.mk.injEq, List.not_mem_nil, or_false] at hb
  rcases hb with ⟨rfl, rfl, rfl, rfl⟩ | ⟨rfl, rfl, rfl, rfl⟩ | ⟨rfl, rfl, rfl, rfl⟩ |
    ⟨rfl, rfl, rfl, rfl⟩ | ⟨rfl, rfl, rfl, rfl⟩
  · -- The check: only `rt_sigreturn` takes the branch.
    rcases hgo with ⟨heq, hpc'⟩ | ⟨_, hpc'⟩
    · exact .goto (by decide) (by decide) hpc' hx htrace (fun _ => heq.trans (hc.number hpc))
        (fun h => absurd h (not_owesAt (by decide)))
    · exact .goto_free (by decide) (by decide) hpc' hx htrace
  · -- `beqz t0, return_prelude` is taken by the calls to be forwarded.
    rcases hgo with ⟨heq, hpc'⟩ | ⟨_, hpc'⟩
    · refine .goto (by decide) (by decide) hpc' hx htrace (fun h => absurd h (by decide))
        (fun _ => ?_)
      rw [hpc, owes_loc (by decide)]
      exact Or.inr (Or.inl ⟨by decide, heq.trans (get_zero c.x)⟩)
    · exact .goto_free (by decide) (by decide) hpc' hx htrace
  · -- The call has been handled.
    rcases hgo with ⟨_, hpc'⟩ | ⟨_, hpc'⟩
    · exact .goto_free (by decide) (by decide) hpc' hx htrace
    · exact .goto_free (by decide) (by decide) hpc' hx htrace
  · -- `clone`, and then `clone3`.
    rcases hgo with ⟨_, hpc'⟩ | ⟨_, hpc'⟩
    · exact .goto_leaving (by decide) (by decide) hpc hpc' hx htrace
    · exact .goto_leaving (by decide) (by decide) hpc hpc' hx htrace
  · rcases hgo with ⟨_, hpc'⟩ | ⟨_, hpc'⟩
    · exact .goto_leaving (by decide) (by decide) hpc hpc' hx htrace
    · exact .goto_leaving (by decide) (by decide) hpc hpc' hx htrace

/-- The jumps to the return sequence keep `a7`, and lead to a system call only
    from where one is owed. -/
theorem Accounted.retJump {b : Nat × Nat} (hb : b ∈ retBlocks)
    (hpc : c.pc = env.loc .asmSyscallHook (b.1 + 3)) (hpc' : c'.pc = returnWord env b.2)
    (hx : ∀ r, c'.x.get r = c.x.get r) (htrace : c'.trace = c.trace) : Accounted env c c' := by
  -- The block of the handled calls leads to a word where none is made.
  have htable : ∀ b ∈ retBlocks, b.2 < 14 ∧ b.1 + 3 < 98 ∧
      (b.2 ∈ owingWords → 82 ≤ b.1 + 3 ∧ b.1 + 3 ≤ 93) := by decide
  rcases htable b hb with ⟨hw, hlt, howe⟩
  refine .quiet htrace (hpc' ▸ checked_word hw) ?_
  rw [hpc', hpc, owes_word hw, owes_loc hlt, hx a7]
  exact fun h => Or.inr (Or.inr ⟨howe h.1, h.2⟩)

end Assembly

section Outside

variable {c c' : Conf K}

/-- A return word that goes on to the next one. -/
theorem Accounted.word {i : Nat} {ins : Instr}
    (hi : (setupReturn.map decode)[i]? = some (some ins)) (hseq : sequential ins = true)
    (hnext : i + 1 < 14) (hpc : c.pc = returnWord env i) (hpc' : c'.pc = returnWord env (i + 1))
    (htrace : c'.trace = c.trace)
    (hregs : ∀ r, destination ins ≠ some r → c'.x.get r = c.x.get r) : Accounted env c c' := by
  -- The words in front of a system call are on the way to it, and leave `a7` alone.
  have htable : ∀ i, i + 1 < 14 → i + 1 ∈ owingWords → ∀ o ∈ (setupReturn.map decode)[i]?,
      ∀ ins ∈ o, sequential ins = true → i ∈ owingWords ∧ destination ins ≠ some a7 := by
    intro i hi
    rcases (by omega : i = 0 ∨ i = 1 ∨ i = 2 ∨ i = 3 ∨ i = 4 ∨ i = 5 ∨ i = 6 ∨ i = 7 ∨ i = 8 ∨
      i = 9 ∨ i = 10 ∨ i = 11 ∨ i = 12) with rfl | rfl | rfl | rfl | rfl | rfl | rfl | rfl |
      rfl | rfl | rfl | rfl | rfl <;> decide
  refine .quiet htrace (hpc' ▸ checked_word hnext) ?_
  rw [hpc', hpc, owes_word hnext, owes_word (by omega)]
  rintro ⟨hword, hne⟩
  rcases htable i hnext hword _ hi ins rfl hseq with ⟨hin, hdest⟩
  rw [hregs a7 hdest] at hne
  exact ⟨hin, hne⟩

/-- No call is owed behind a system call of vpoline. -/
theorem IssuesAt.settled {pc next : Addr} {x : Regs} (h : IssuesAt env pc next) :
    Checked env next x ∧ ¬ Owes env next x := by
  rcases h with ⟨_, rfl⟩ | ⟨_, rfl⟩ | ⟨_, rfl⟩
  · exact ⟨checked_word (by decide), fun ho => absurd ((owes_word (by decide)).mp ho).1 (by decide)⟩
  · exact ⟨checked_word (by decide), fun ho => absurd ((owes_word (by decide)).mp ho).1 (by decide)⟩
  · have hidle : Idle env (env.loc .syscallNoIntercept 8) := idle_noIntercept (by decide)
    exact ⟨hidle.checked, hidle.not_owes⟩

/-- A system call of vpoline. If it counts, it is owed before and no longer
    after. -/
theorem Accounted.issue (hissue : IssuesAt env c.pc c'.pc)
    (htrace : c'.trace = c.trace ++ [.ecall c.toCore c.kst]) : Accounted env c c' := by
  refine ⟨hissue.settled.1, _, htrace, ?_, ?_⟩
  · intro e he
    rw [List.mem_singleton.mp he]
    rcases hissue with ⟨hpc, _⟩ | ⟨hpc, _⟩ | ⟨hpc, _⟩
    · exact Or.inr (Or.inr (Or.inl hpc))
    · exact Or.inr (Or.inr (Or.inr hpc))
    · exact Or.inr (Or.inl hpc)
  · rw [debt_eq_zero hissue.settled.2, List.countP_singleton, List.countP_singleton]
    by_cases hf : (Event.ecall c.toCore c.kst).forwarded env = true
    -- One of the two words, with another number than that of `rt_sigreturn`.
    · have howes : Owes env c.pc c.x := by
        simp only [Event.forwarded, Bool.and_eq_true, Bool.or_eq_true, beq_iff_eq,
          bne_iff_ne] at hf
        rcases hf with ⟨hword | hword, hne⟩
        · exact Or.inr ⟨4, by decide, hword, hne⟩
        · exact Or.inr ⟨12, by decide, hword, hne⟩
      rw [if_pos hf, debt_eq_one howes]
      omega
    · rw [if_neg hf]
      omega

/-- The return of a hook, where consent is given or withheld. -/
theorem Accounted.hookReturn {act : Activation} {rest : List Activation}
    (hr : SyscallHookReturn env act rest c c') (hpc' : c'.pc = env.loc .asmSyscallHook 39) :
    Accounted env c c' := by
  refine ⟨hpc' ▸ checked_loc (by decide) (by decide), _, hr.trace, ?_, ?_⟩
  · intro e he
    rw [List.mem_singleton.mp he]
    trivial
  · rw [List.countP_singleton, List.countP_singleton, if_neg (by simp only [Event.forwarded,
      Bool.false_eq_true, not_false_eq_true])]
    by_cases hf : (Event.hookReturn c.toCore c.kst).consent = true
    -- Consent is worth one call.
    · rw [if_pos hf]
      have hdebt : debt env c'.pc c'.x ≤ 1 := by
        unfold debt
        split <;> omega
      omega
    -- Without consent `a1` is `1`, so no call is owed.
    · have ha1 : c'.x.get a1 = 1 := hr.a1.trans (if_neg hf)
      have hnone : ¬ Owes env c'.pc c'.x := by
        rw [hpc', owes_loc (by decide)]
        rintro (⟨_, hzero⟩ | ⟨h, _⟩ | ⟨h, _⟩)
        · rw [ha1] at hzero
          exact absurd hzero (by decide)
        · omega
        · omega
      rw [debt_eq_zero hnone]
      omega

/-- The call of an installed hook. -/
theorem Accounted.hookCall {act : Activation} (hc : SyscallHookCall env act c c')
    (hidle : Idle env c'.pc) : Accounted env c c' := by
  refine ⟨hidle.checked, _, hc.trace, ?_, ?_⟩
  · intro e he
    rw [List.mem_singleton.mp he]
    trivial
  · rw [debt_eq_zero hidle.not_owes, List.countP_singleton, if_neg (by simp only [Event.forwarded,
      Bool.false_eq_true, not_false_eq_true])]
    omega

end Outside

theorem OwnCalls.events {c c' : Conf K} (h : OwnCalls env c c') :
    ∃ es, c'.trace = c.trace ++ es ∧ (∀ e ∈ es, e.sourced env) ∧
      es.countP (Event.forwarded env) = 0 := by
  rcases h with ⟨es, htrace, hes⟩
  refine ⟨es, htrace, ?_, ?_⟩
  · intro e he
    rcases hes e he with ⟨core, k, rfl, hregion⟩
    exact Or.inl hregion
  · rw [List.countP_eq_zero]
    intro e he hf
    rcases hes e he with ⟨core, k, rfl, hregion⟩
    simp only [Event.forwarded, Bool.and_eq_true, Bool.or_eq_true, beq_iff_eq] at hf
    -- The return words are not application code.
    rcases hf.1 with hpc | hpc <;>
      rw [hpc, returnWord, env.region_return _ (by decide)] at hregion <;>
      exact absurd hregion (by simp only [reduceCtorEq, not_false_eq_true])

theorem OwnCalls.accounted {c c' : Conf K} (h : OwnCalls env c c') (hidle : Idle env c'.pc) :
    Accounted env c c' := by
  rcases h.events with ⟨es, htrace, hsourced, hzero⟩
  refine ⟨hidle.checked, es, htrace, hsourced, ?_⟩
  rw [hzero, debt_eq_zero hidle.not_owes]
  omega

/-- Every instruction of a thread in a process with a hook. -/
theorem Flow.accounted (hs : PatchedSites env sites) {c c' : Conf K} (h : Flow env sites c c')
    (hhook : env.hookFn c.mem ≠ 0) (hc : Checked env c.pc c.x)
    (hf : env.region c.pc = .foreign → OwnCalls env c c') : Accounted env c c' := by
  cases h with
  | app hforeign hland => exact (hf hforeign).accounted (hland.idle hs)
  | site _ hpc' htrace =>
      have hidle : Idle env env.rgp := by
        have h : Idle env (env.rgp + BitVec.ofNat 64 (4 * 0)) := idle_trampoline (by decide)
        rwa [Nat.mul_zero, BitVec.add_zero] at h
      exact .idle htrace (hpc' ▸ hidle)
  | trampoline k hk _ hpc' htrace => exact .idle htrace (hpc' ▸ idle_trampoline (by omega))
  | enter _ hpc' htrace =>
      refine .quiet htrace (hpc' ▸ checked_loc (by decide) (by decide)) ?_
      rw [hpc', owes_loc (by decide)]
      exact fun h => absurd h (not_owesAt (by decide))
  | straight p i s hs' hst hlt hpc hpc' htrace hregs hexec =>
      cases p with
      | asmSyscallHook => exact .straight hs' hst hlt hpc hpc' htrace hregs hexec hc
      | syscallNoIntercept => exact .idle htrace (hpc' ▸ idle_noIntercept hlt)
  | branch i rs1 rs2 target hb hpc hx htrace hgo => exact .branch hb hpc hx htrace hgo hc
  | jump hpc hpc' hx htrace =>
      -- Only `rt_sigreturn` comes this way.
      refine .goto (by decide) (by decide) hpc' hx htrace (fun h => absurd h (by decide)) ?_
      rw [owesAt_leaving (by decide)]
      exact fun hne => absurd (hc.branch 97 (by decide) (by decide) hpc) hne
  | call _ hpc' htrace =>
      refine .idle htrace (hpc' ▸ idle_of_region (fun j => ?_) ?_) <;>
        rw [env.region_syscallHook] <;> simp only [ne_eq, reduceCtorEq, not_false_eq_true]
  | retJump b hb hpc hpc' hx htrace => exact .retJump hb hpc hpc' hx htrace
  -- Without a hook nobody would have to consent.
  | hookNull _ hnull _ => exact absurd hnull.null hhook
  | hookCall act _ hcall happ => exact .hookCall hcall (happ.idle hs)
  | hookReturn act rest _ hret hpc' => exact .hookReturn hret hpc'
  | word i ins hi hseq hnext hpc hpc' htrace hregs =>
      exact .word hi hseq hnext hpc hpc' htrace hregs
  | wordJump i _ _ hpc' htrace =>
      refine .quiet htrace (hpc' ▸ checked_word (by decide)) ?_
      rw [hpc', owes_word (by decide)]
      exact fun h => absurd h.1 (by decide)
  | issue hissue htrace _ => exact .issue hissue htrace
  | leave _ hland htrace => exact .idle htrace (hland.idle hs)

/-- What the contexts owe that handlers return to. -/
noncomputable def debts (env : Env K) (contexts : List Context) : Nat :=
  (contexts.map (fun ctx => debt env ctx.pc ctx.x)).sum

/-- The account of a thread and of the contexts its handlers return to. -/
structure Ledger (env : Env K) (sites : Addr → Prop) (t : Thread K) : Prop where
  known : AtKnownPlace env sites t
  hook : env.hookFn t.conf.mem ≠ 0
  checked : Checked env t.conf.pc t.conf.x
  contexts : ∀ ctx ∈ t.contexts, Checked env ctx.pc ctx.x
  sourced : ∀ e ∈ t.conf.trace, e.sourced env
  balance : t.conf.trace.countP (Event.forwarded env) + debt env t.conf.pc t.conf.x +
    debts env t.contexts ≤ t.conf.trace.countP Event.consent

theorem Kept.hookFn {m m' : Mem} (h : Kept env sites m m') : env.hookFn m' = env.hookFn m :=
  Mem.read_congr (fun _ hk => h _ (Or.inl (Or.inr (Or.inr (by bv_omega)))))

/-- A change that records `es` and does not overdraw. -/
theorem Ledger.extend {t t' : Thread K} (h : Ledger env sites t) (es : List (Event K))
    (htrace : t'.conf.trace = t.conf.trace ++ es) (hsourced : ∀ e ∈ es, e.sourced env)
    (hknown : AtKnownPlace env sites t') (hhook : env.hookFn t'.conf.mem = env.hookFn t.conf.mem)
    (hchecked : Checked env t'.conf.pc t'.conf.x)
    (hcontexts : ∀ ctx ∈ t'.contexts, Checked env ctx.pc ctx.x)
    (hbal : es.countP (Event.forwarded env) + debt env t'.conf.pc t'.conf.x +
        debts env t'.contexts ≤
      debt env t.conf.pc t.conf.x + debts env t.contexts + es.countP Event.consent) :
    Ledger env sites t' := by
  refine ⟨hknown, ?_, hchecked, hcontexts, ?_, ?_⟩
  · rw [hhook]
    exact h.hook
  · rw [htrace]
    intro e he
    rcases List.mem_append.mp he with he | he
    · exact h.sourced e he
    · exact hsourced e he
  · have hbefore := h.balance
    rw [htrace, List.countP_append, List.countP_append]
    omega

theorem debts_cons (ctx : Context) (contexts : List Context) :
    debts env (ctx :: contexts) = debt env ctx.pc ctx.x + debts env contexts := by
  rw [debts, List.map_cons, List.sum_cons, debts]

/-- One step of a thread, if no signal is delivered in a window. -/
theorem Ledger.step (hs : PatchedSites env sites) {t t' : Thread K} (h : Ledger env sites t)
    (hstep : SigStep env sites (fun pc => ¬ GpWindow env pc) t t') (hrec : Recorded env t t') :
    Ledger env sites t' := by
  have hknown := h.known.step hs hstep
  cases hstep with
  | exec c c' contexts he hk hf hl =>
      have hflow := h.known.place.flow hs h.known.returns h.known.loaded he hl
      rcases hflow.accounted hs h.hook h.checked (fun hforeign => hrec (Or.inl hforeign)) with
        ⟨hchecked, es, htrace, hsourced, hbal⟩
      have hbal' : es.countP (Event.forwarded env) + debt env c'.pc c'.x ≤
        debt env c.pc c.x + es.countP Event.consent := hbal
      refine h.extend es htrace hsourced hknown hk.hookFn hchecked h.contexts ?_
      show _ + debt env c'.pc c'.x + debts env contexts ≤
        debt env c.pc c.x + debts env contexts + _
      omega
  | deliver c hc contexts hallowed happ hf hk =>
      -- What the thread owed is now owed by the context it left behind.
      have hnew : c.context :: contexts ≠ contexts :=
        fun heq => absurd (congrArg List.length heq) (by simp only [List.length_cons]; omega)
      rcases (hrec (Or.inr hnew)).events with ⟨es, htrace, hsourced, hzero⟩
      have hidle := happ.idle hs
      refine h.extend es htrace hsourced hknown hk.hookFn hidle.checked ?_ ?_
      · intro ctx hctx
        rcases List.mem_cons.mp hctx with rfl | hctx
        · exact h.checked
        · exact h.contexts ctx hctx
      · show _ + debt env hc.pc hc.x + debts env (c.context :: contexts) ≤
          debt env c.pc c.x + debts env contexts + _
        rw [hzero, debt_eq_zero hidle.not_owes, debts_cons]
        show 0 + 0 + (debt env c.pc c.x + debts env contexts) ≤ _
        omega
  | sigreturn c ctx contexts =>
      -- The context becomes the thread, and what the handler owed is void.
      refine h.extend [] (List.append_nil _).symm (fun e he => absurd he List.not_mem_nil) hknown
        rfl (h.contexts ctx List.mem_cons_self)
        (fun ctx' h' => h.contexts ctx' (List.mem_cons_of_mem _ h')) ?_
      show _ + debt env ctx.pc ctx.x + debts env contexts ≤
        debt env c.pc c.x + debts env (ctx :: contexts) + _
      rw [debts_cons, List.countP_nil]
      omega

/-- The account of a thread that has not done anything yet. -/
theorem Ledger.opened {t : Thread K} (h : AtKnownPlace env sites t)
    (hhook : env.hookFn t.conf.mem ≠ 0) (hchecked : Checked env t.conf.pc t.conf.x)
    (hnone : ¬ Owes env t.conf.pc t.conf.x) (hcontexts : t.contexts = [])
    (htrace : t.conf.trace = []) : Ledger env sites t := by
  refine ⟨h, hhook, hchecked, ?_, ?_, ?_⟩
  · rw [hcontexts]
    exact fun ctx hctx => absurd hctx List.not_mem_nil
  · rw [htrace]
    exact fun e he => absurd he List.not_mem_nil
  · rw [htrace, hcontexts, debt_eq_zero hnone]
    exact Nat.le_refl 0

theorem Fresh.ledger (hs : PatchedSites env sites) {t : Thread K} (h : Fresh env sites t)
    (hhook : env.hookFn t.conf.mem ≠ 0) (htrace : t.conf.trace = []) : Ledger env sites t := by
  have hstart : Checked env t.conf.pc t.conf.x ∧ ¬ Owes env t.conf.pc t.conf.x := by
    rcases h.starts with ⟨happ, _⟩ | hpc
    · exact ⟨(happ.idle hs).checked, (happ.idle hs).not_owes⟩
    · rw [hpc]
      exact ⟨checked_word (by decide),
        fun ho => absurd ((owes_word (by decide)).mp ho).1 (by decide)⟩
  exact .opened h.atKnownPlace hhook hstart.1 hstart.2 h.contexts htrace

/-- Complete mediation. At every point of every run of a thread with a hook,
    in which no signal is delivered in a window, system calls come from the
    application's own code, from `syscall_no_intercept` and from the return
    sequence, and those of the return sequence that are not `rt_sigreturn` are
    no more than the hook returns that asked for one. -/
theorem calls_mediated (hs : PatchedSites env sites) {t t' : Thread K} (h : Fresh env sites t)
    (hhook : env.hookFn t.conf.mem ≠ 0) (htrace : t.conf.trace = [])
    (hrun : Relation.ReflTransGen (fun u u' =>
      SigStep env sites (fun pc => ¬ GpWindow env pc) u u' ∧ Recorded env u u') t t') :
    (∀ e ∈ t'.conf.trace, e.sourced env) ∧
      t'.conf.trace.countP (Event.forwarded env) ≤ t'.conf.trace.countP Event.consent := by
  have hledger : Ledger env sites t' :=
    invariant_run (fun _ _ hu hstep => hu.step hs hstep.1 hstep.2) (h.ledger hs hhook htrace) hrun
  have hbalance := hledger.balance
  exact ⟨hledger.sourced, by omega⟩

/-- The system call at the end of an interception counts. -/
theorem AtIssue.forwarded {s r c : Conf K} (h : AtIssue env s r c) (ha7 : s.get a7 ≠ 139) :
    (Event.ecall c.toCore c.kst).forwarded env = true := by
  have hnumber : c.x a7 ≠ 139 := (h.issued.regs a7 (by decide)).trans_ne ha7
  simp only [Event.forwarded, Bool.and_eq_true, Bool.or_eq_true, beq_iff_eq, bne_iff_ne]
  refine ⟨?_, hnumber⟩
  rw [h.pc]
  by_cases hclone : isClone (s.get a7)
  · exact Or.inr (by rw [if_pos hclone])
  · exact Or.inl (by rw [if_neg hclone])

/-- A worker issues its system call in `t` and is behind it in `t'`. -/
structure WorkerCalls (allowed : Addr → Prop) (nr : Word) (t t' : Thread Nat) : Prop where
  run : Relation.ReflTransGen (TracedStep workerEnv flatSites allowed) ⟨workerSite nr, []⟩ t
  step : TracedStep workerEnv flatSites allowed t t'
  issues : IssuesAt workerEnv t.conf.pc t'.conf.pc
  installed : Installed workerEnv t'.conf.mem
  behind : t'.conf.pc = behindIssue workerEnv (workerSite nr)
  back : isClone nr → t'.conf.x gp = 0x40004
  once : t'.conf.trace.countP (Event.forwarded workerEnv) = 1

theorem worker_calls (allowed : Addr → Prop) {nr : Word} (hnr : nr ≠ 139) :
    ∃ t t', WorkerCalls allowed nr t t' := by
  rcases worker_issues allowed hnr with ⟨e, r, c, m, hc, htrace, hrun⟩
  refine ⟨_, _, hrun, hc.traced ⟨rfl, rfl, rfl⟩ (fun _ _ => rfl) [], hc.issuesAt, hc.installed, rfl,
    hc.back, ?_⟩
  have hlast : [Event.ecall c.toCore c.kst].countP (Event.forwarded workerEnv) = 1 := by
    rw [List.countP_singleton, if_pos (hc.forwarded hnr)]
  simp only [Conf.afterEcall, htrace, List.countP_append, hlast]
  rfl

/-- A run through an interception: the hook consents, and the call is made. -/
theorem calls_mediated_worker :
    ∃ t', Relation.ReflTransGen (fun u u' =>
        SigStep workerEnv flatSites (fun pc => ¬ GpWindow workerEnv pc) u u' ∧
          Recorded workerEnv u u') ⟨workerSite 64, []⟩ t' ∧
      t'.conf.trace.countP (Event.forwarded workerEnv) = 1 ∧
      (∀ e ∈ t'.conf.trace, e.sourced workerEnv) ∧
      t'.conf.trace.countP (Event.forwarded workerEnv) ≤
        t'.conf.trace.countP Event.consent := by
  rcases worker_calls (fun pc => ¬ GpWindow workerEnv pc) (show (64 : Word) ≠ 139 by decide) with
    ⟨t, t', h⟩
  have hall := h.run.tail h.step
  exact ⟨t', hall, h.once,
    calls_mediated worker_sites (worker_fresh 64) (worker_hook 64) rfl hall⟩

end Vpoline
