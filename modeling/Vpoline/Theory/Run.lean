import Vpoline.Core.Signals
import Vpoline.Lib.SaveRestore

/-!
# Running vpoline's Code

How a stretch of vpoline's code runs on the machine, whatever happens below
the stack pointer in the meantime.

`Fetches` says that an address holds a given instruction, in any memory that
agrees with a reference memory on vpoline's own bytes. It hides whether the
instruction is a word in memory or a line of assembly, so the lemmas that
follow are stated once for both. `step_models` runs one instruction of
straight-line frame code, and `run_segment` a list of them, by induction over
the list.

Each result has two halves. Whatever is disturbed below the stack pointer, the
instruction does the same, and if nothing is, then it can be executed. `Calm`
are the steps of the second kind: they write to the stack only and stay in
vpoline's code, so that they are steps of a thread among others as well.

The few instructions that symbolic frame execution gives up on, the jumps and
the ones that move the stack pointer, touch no memory. `After` is what they
all do: new registers, a new program counter, and only volatile memory below
the stack pointer changed.

## Main definitions

* `SameGhost`: Activations, kernel state and trace are unchanged.
* `Quiet`, `Calm`: Instructions before which nothing is disturbed.
* `Fetches`: An address holds an instruction.
* `Placed`: A list of instructions at consecutive positions.
* `After`: The effect of an instruction that does not touch memory.
* `Fetched`: A thread is about to execute an instruction.
* `nullAnswer`, `calledHook`, `hookAnswer`: What `syscall_hook` may do.

## Theorems

* `own_of_agree`: Agreement above a bound includes vpoline's own bytes.
* `inside_asm`, `inside_noIntercept`, `inside_trampoline`, `inside_return`,
  `inside_site`: Where vpoline's code is not left.
* `fetches_stmt`: An assembly statement is fetched at its address.
* `fetches_word`, `fetches_trampoline`, `fetches_return`: So are the injected words.
* `placed_stmts`: A slice of the assembly is placed.
* `step_models`: One instruction of straight-line code.
* `run_segment`: A list of them.
* `step_register`: One instruction that does not touch memory.
* `step_fetched`: The same for a machine instruction.
* `step_jalr`, `step_jal`, `step_addi`, `step_load_rgp`, `step_load_frame`: Its
  instances.
* `step_stmt`, `step_la`, `step_beq`, `step_j`, `step_call`: The assembly statements.
* `step_ecall`: A system call.
* `quiet_syscallHook`, `quiet_hookRet`: The C function.
* `Models.after`: Such an instruction, seen from inside a frame.
-/

namespace Vpoline

open RV64

variable {K : Type} {env : Env K}

/-- The parts of a thread that no instruction of vpoline touches. -/
structure SameGhost (c c' : Conf K) : Prop where
  activations : c'.activations = c.activations
  kst : c'.kst = c.kst
  trace : c'.trace = c.trace

theorem SameGhost.refl (c : Conf K) : SameGhost c c := ⟨rfl, rfl, rfl⟩

theorem SameGhost.trans {c c' c'' : Conf K} (h : SameGhost c c') (h' : SameGhost c' c'') :
    SameGhost c c'' :=
  ⟨h'.activations.trans h.activations, h'.kst.trans h.kst, h'.trace.trans h.trace⟩

theorem own_of_agree {p : Addr} {m m' : Mem} (h : AgreeAbove env.stack p m m') (b : Addr)
    (hb : env.own b) : m' b = m b :=
  h b (fun hst => env.own_not_stack b hb hst.1)

/-- One instruction with nothing disturbed before it, and no byte written but
    on the stack. -/
structure Quiet (env : Env K) (c c' : Conf K) : Prop where
  exec : Exec env c c'
  mem : ∀ a, ¬ env.stack a → c'.mem a = c.mem a

theorem Quiet.step {c c' : Conf K} (h : Quiet env c c') : Step env c c' :=
  ⟨c.mem, AgreeAbove.refl _ _ _, h.exec⟩

/-- Such an instruction of vpoline that goes on inside vpoline's code, or to the
    hook. -/
structure Calm (env : Env K) (c c' : Conf K) : Prop extends Quiet env c c' where
  inside : ¬ Leaves env c.pc

theorem calm_step {c : Conf K} (hin : ¬ Leaves env c.pc) (h : ∃ c', Quiet env c c') :
    ∃ c', Step env c c' ∧ Calm env c c' := by
  rcases h with ⟨c', hc'⟩
  exact ⟨c', hc'.step, hc', hin⟩

/-- No byte outside the stack is below the stack pointer. -/
theorem eq_of_agree {p : Addr} {m m' : Mem} (h : AgreeAbove env.stack p m m') (a : Addr)
    (ha : ¬ env.stack a) : m' a = m a :=
  h a (fun hst => ha hst.1)

section Inside

/-- vpoline's code is left at the last return word and at the end of
    `syscall_no_intercept` only. -/
theorem inside_of_region {a : Addr} {r : Region} (hr : env.region a = r)
    (hne : r ∉ [.words, .foreign, .asm .syscallNoIntercept 8]) : ¬ Leaves env a := by
  have hout : ∀ {r'}, env.region a = r' → r' ∉ [.words, .foreign, .asm .syscallNoIntercept 8] :=
    fun hr' => (hr.symm.trans hr') ▸ hne
  rintro (hf | rfl | rfl)
  · exact absurd (by decide) (hout hf)
  · exact absurd (by decide) (hout (env.region_return 13 (by decide)))
  · exact absurd (by decide) (hout (env.region_loc .syscallNoIntercept 8 (by decide)))

theorem inside_syscallHook : ¬ Leaves env env.syscallHook :=
  inside_of_region env.region_syscallHook (by decide)

theorem inside_hookRet : ¬ Leaves env env.hookRet :=
  inside_of_region env.region_hookRet (by decide)

theorem inside_asm {i : Nat} (hi : i < 98) : ¬ Leaves env (env.loc .asmSyscallHook i) :=
  inside_of_region (env.region_loc .asmSyscallHook i hi) (by
    simp only [List.mem_cons, List.not_mem_nil, reduceCtorEq, Region.asm.injEq, false_and, or_self,
      not_false_eq_true])

theorem inside_noIntercept {i : Nat} (hi : i < 8) : ¬ Leaves env (env.loc .syscallNoIntercept i) :=
  inside_of_region (env.region_loc .syscallNoIntercept i (Nat.lt_trans hi (by decide))) (by
    simp only [List.mem_cons, List.not_mem_nil, reduceCtorEq, Region.asm.injEq, true_and, or_false,
      false_or]
    omega)

/-- Of the injected words it is one. -/
theorem inside_words {a : Addr} (hr : env.region a = .words) (hne : a ≠ returnWord env 13) :
    ¬ Leaves env a := by
  rintro (hf | hw | rfl)
  · rw [hr] at hf
    exact absurd hf (by decide)
  · exact hne hw
  · rw [env.region_loc .syscallNoIntercept 8 (by decide)] at hr
    exact absurd hr (by decide)

theorem inside_trampoline {k : Nat} (hk : k < 20) :
    ¬ Leaves env (env.rgp + BitVec.ofNat 64 (4 * k)) := by
  refine inside_words (env.region_trampoline k hk) (fun h => ?_)
  rw [returnWord] at h
  bv_omega

theorem inside_site {sites : Addr → Prop} {a : Addr} (hs : PatchedSites env sites)
    (ha : sites a) : ¬ Leaves env a := by
  refine inside_words (hs.region a ha) (fun h => ?_)
  have hapart := hs.apart a ha
  rw [h, returnWord] at hapart
  bv_omega

theorem inside_return {i : Nat} (hi : i < 13) : ¬ Leaves env (returnWord env i) := by
  refine inside_words (env.region_return i (by omega)) (fun h => ?_)
  simp only [returnWord] at h
  bv_omega

end Inside

/-- The address `a` holds `ins`, in any state whose own bytes are as in `m`. -/
def Fetches (env : Env K) (m : Mem) (a : Addr) (ins : Instr) (next : Addr) : Prop :=
  ∀ c c' : Conf K, c.pc = a → (∀ b, env.own b → c.mem b = m b) →
    (Exec env c c' ↔ ExecInstr env next c ins c')

theorem exec_stmt_iff {p : Prog} {i : Nat} {s : Stmt} {c c' : Conf K}
    (hs : p.text[i]? = some s) (hpc : c.pc = env.loc p i) :
    Exec env c c' ↔ ExecStmt env p i c s c' := by
  have hlt : i < p.text.length := (List.getElem?_eq_some_iff.mp hs).1
  simp only [Exec, hpc, env.region_loc p i hlt, hs, Option.some.injEq, exists_eq_left']

theorem fetches_stmt {p : Prog} {i : Nat} {ins : Instr} (m : Mem)
    (hs : p.text[i]? = some (.ins ins)) :
    Fetches env m (env.loc p i) ins (env.loc p (i + 1)) := by
  intro c c' hpc _
  rw [exec_stmt_iff hs hpc]
  constructor
  · intro h
    cases h with
    | ins _ _ he => exact he
  · exact fun he => ExecStmt.ins ins c' he

/-- A word fetched from memory. -/
theorem exec_word_iff {ins : Instr} {c c' : Conf K} (hr : env.region c.pc = .words)
    (hw : decode (c.mem.read c.pc 4) = some ins) :
    Exec env c c' ↔ ExecInstr env (c.pc + 4) c ins c' := by
  simp only [Exec, hr, hw, Option.some.injEq, exists_eq_left']

/-- A word of a list that is in memory wherever vpoline's own bytes are. -/
theorem fetches_word {m : Mem} {a : Addr} {ws : List (BitVec 32)} {i : Nat} {ins : Instr}
    (hat : ∀ m', (∀ b, env.own b → m' b = m b) → WordsAt m' a ws)
    (hregion : ∀ j, j < ws.length → env.region (a + BitVec.ofNat 64 (4 * j)) = .words)
    (hi : (ws.map decode)[i]? = some (some ins)) :
    Fetches env m (a + BitVec.ofNat 64 (4 * i)) ins (a + BitVec.ofNat 64 (4 * (i + 1))) := by
  intro c c' hpc hown
  rw [List.getElem?_map, Option.map_eq_some_iff] at hi
  rcases hi with ⟨w, hw, hdec⟩
  rcases List.getElem?_eq_some_iff.mp hw with ⟨hlt, hget⟩
  have hword := hat c.mem hown i hlt
  rw [← hpc, hget] at hword
  have hnext : a + BitVec.ofNat 64 (4 * (i + 1)) = c.pc + 4 := by
    rw [hpc]
    bv_omega
  rw [exec_word_iff (by rw [hpc]; exact hregion i hlt) (by rw [hword]; exact hdec), hnext]

theorem fetches_trampoline {m : Mem} (hm : Installed env m) {i : Nat} {ins : Instr}
    (hi : ((setupShadowPageTrampoline env.dst).map decode)[i]? = some (some ins)) :
    Fetches env m (env.rgp + BitVec.ofNat 64 (4 * i)) ins
      (env.rgp + BitVec.ofNat 64 (4 * (i + 1))) :=
  fetches_word (fun _ hown => (installed_of_own hm hown).trampoline) env.region_trampoline hi

theorem fetches_return {m : Mem} (hm : Installed env m) {i : Nat} {ins : Instr}
    (hi : (setupReturn.map decode)[i]? = some (some ins)) :
    Fetches env m (env.rgp - 56 + BitVec.ofNat 64 (4 * i)) ins
      (env.rgp - 56 + BitVec.ofNat 64 (4 * (i + 1))) :=
  fetches_word (fun _ hown => (installed_of_own hm hown).ret) env.region_return hi

/-- The return word that an offset from `relocated_gp` leads to. -/
theorem rgp_add_offset (env : Env K) {off : BitVec 12} {j : Nat}
    (h : off.signExtend 64 = BitVec.ofNat 64 (4 * j) - 56) :
    env.rgp + off.signExtend 64 = returnWord env j := by
  rw [h, returnWord]
  bv_omega

/-- The return word that a jump from another one leads to. -/
theorem returnWord_jump (env : Env K) {imm : BitVec 21} {i j : Nat}
    (h : imm.signExtend 64 = BitVec.ofNat 64 (4 * j) - BitVec.ofNat 64 (4 * i)) :
    returnWord env i + imm.signExtend 64 = returnWord env j := by
  rw [h, returnWord, returnWord]
  bv_omega

/-- A list of instructions at the positions `at 0`, `at 1`, and so on. -/
def Placed (env : Env K) (m : Mem) (pos : Nat → Addr) (is : List Instr) : Prop :=
  ∀ j ins, is[j]? = some ins → Fetches env m (pos j) ins (pos (j + 1))

theorem placed_stmts {p : Prog} {i : Nat} {is : List Instr} (m : Mem)
    (h : (p.text.drop i).take is.length = is.map Stmt.ins) :
    Placed env m (fun j => env.loc p (i + j)) is := by
  intro j ins hj
  have hlt : j < is.length := (List.getElem?_eq_some_iff.mp hj).1
  refine fetches_stmt (i := i + j) m ?_
  -- The slice is the list, so its `j`-th statement is the `j`-th instruction.
  have hget := congrArg (fun l => l[j]?) h
  simp only [List.getElem?_take_of_lt hlt, List.getElem?_drop, List.getElem?_map, hj,
    Option.map_some] at hget
  exact hget

theorem Placed.tail {m : Mem} {pos : Nat → Addr} {i : Instr} {is : List Instr}
    (h : Placed env m pos (i :: is)) : Placed env m (fun j => pos (j + 1)) is :=
  fun j ins hj => h (j + 1) ins hj

section Straight

variable {base : Addr} {size : Nat} {m : Mem} {y y' : Sym} {c : Conf K}

/-- One instruction of straight-line frame code, without perturbation. -/
theorem exec_models_iff (hf : FrameAt env.stack base size) {ins : Instr} {next : Addr}
    (hfetch : Fetches env m c.pc ins next) (hy : y.exec size ins = some y')
    (h : Models env.stack base size m y c.toCore) :
    ∃ core, core.pc = next ∧ Models env.stack base size m y' core ∧
      ∀ c', Exec env c c' ↔ c' = { c with toCore := core } := by
  rcases exec_models hf h ins next hy with ⟨core, hexec, hpc, hmod⟩
  refine ⟨core, hpc, hmod, fun c' => ?_⟩
  rw [hfetch c c' rfl (own_of_agree h.mem)]
  constructor
  · intro he
    cases he with
    | step _ core' he' =>
        rw [hexec, Option.some.injEq] at he'
        rw [he']
    | ecall res m' k' _ =>
        -- A system call is not an instruction the frame executes.
        exact absurd hy (by simp only [Sym.exec, reduceCtorEq, not_false_eq_true])
  · rintro rfl
    exact ExecInstr.step ins core hexec

/-- One instruction of straight-line frame code. -/
theorem step_models (hf : FrameAt env.stack base size) {ins : Instr} {next : Addr}
    (hfetch : Fetches env m c.pc ins next) (hy : y.exec size ins = some y')
    (h : Models env.stack base size m y c.toCore) :
    (∃ c', Quiet env c c') ∧ ∀ c', Step env c c' →
      c'.pc = next ∧ Models env.stack base size m y' c'.toCore ∧ SameGhost c c' := by
  have hsp : c.x sp = base := (congrFun h.x sp).trans h.sp
  constructor
  · rcases exec_models_iff hf hfetch hy h with ⟨core, _, hmod, hiff⟩
    exact ⟨_, (hiff _).mpr rfl,
      fun a ha => (eq_of_agree hmod.mem a ha).trans (eq_of_agree h.mem a ha).symm⟩
  · rintro c' ⟨m', hm', he⟩
    rw [hsp] at hm'
    -- The disturbance is below the frame, which is all that `y` speaks of.
    have hpert : Models env.stack base size m y { c.toCore with mem := m' } :=
      h.perturb hf hm'
    rcases exec_models_iff (c := { c with mem := m' }) hf hfetch hy hpert with
      ⟨core, hpc, hmod, hiff⟩
    rw [(hiff c').mp he]
    exact ⟨hpc, hmod, ⟨rfl, rfl, rfl⟩⟩

/-- A list of instructions of straight-line frame code, by induction over the
    list. -/
theorem run_segment (hf : FrameAt env.stack base size) : ∀ (is : List Instr)
    (pos : Nat → Addr) (y : Sym) (c : Conf K), Placed env m pos is →
    (∀ j, j < is.length → ¬ Leaves env (pos j)) →
    y.run size is = some y' → Models env.stack base size m y c.toCore →
    c.pc = pos 0 →
    Surely (Calm env) (Step env) (fun c' => c'.pc = pos is.length ∧
      Models env.stack base size m y' c'.toCore ∧ SameGhost c c') c := by
  intro is
  induction is with
  | nil =>
      intro pos y c _ _ hrun h hpc
      simp only [Sym.run, Option.some.injEq] at hrun
      subst hrun
      exact Surely.now c ⟨hpc, h, SameGhost.refl c⟩
  | cons i is ih =>
      intro pos y c hplaced hin hrun h hpc
      rcases Option.bind_eq_some_iff.mp hrun with ⟨y1, hy1, hrest⟩
      have hfetch : Fetches env m c.pc i (pos 1) := by
        rw [hpc]
        exact hplaced 0 i rfl
      rcases step_models hf hfetch hy1 h with ⟨hex, hall⟩
      have hpos : ¬ Leaves env c.pc := hpc ▸ hin 0 (Nat.zero_lt_succ _)
      refine Surely.next c (calm_step hpos hex) (fun c1 hc1 => ?_)
      rcases hall c1 hc1 with ⟨hpc1, hmod1, hghost1⟩
      -- The rest of the list is placed one position further.
      refine (ih (fun j => pos (j + 1)) y1 c1 hplaced.tail (fun j hj => hin (j + 1) ?_) hrest hmod1
        hpc1).mono ?_
      · rw [List.length_cons]
        omega
      rintro c' ⟨hpc', hmod', hghost'⟩
      exact ⟨hpc', hmod', hghost1.trans hghost'⟩

end Straight

/-- What an instruction that does not touch memory does to a thread. -/
structure After (env : Env K) (c c' : Conf K) (pc : Addr) (x : Regs) : Prop where
  pc : c'.pc = pc
  x : c'.x = x
  f : c'.f = c.f
  mem : AgreeAbove env.stack (c.x sp) c.mem c'.mem
  ghost : SameGhost c c'

/-- An instruction that computes registers and program counter alone. -/
theorem step_register {c : Conf K} {pc : Addr} {x : Regs}
    (h : ∀ m, AgreeAbove env.stack (c.x sp) c.mem m → ∀ c', Exec env { c with mem := m } c' ↔
      c' = { c with pc := pc, x := x, mem := m }) :
    (∃ c', Quiet env c c') ∧ ∀ c', Step env c c' → After env c c' pc x := by
  constructor
  · exact ⟨_, (h c.mem (AgreeAbove.refl _ _ _) _).mpr rfl, fun _ _ => rfl⟩
  · rintro c' ⟨m, hm, he⟩
    rw [(h m hm c').mp he]
    exact ⟨rfl, rfl, rfl, hm, ⟨rfl, rfl, rfl⟩⟩

/-- The thread is about to execute `ins`, whatever is perturbed before. -/
def Fetched (env : Env K) (c : Conf K) (ins : Instr) (next : Addr) : Prop :=
  ∀ m, AgreeAbove env.stack (c.x sp) c.mem m → ∀ c', Exec env { c with mem := m } c' ↔
    ExecInstr env next { c with mem := m } ins c'

theorem Fetches.fetched {c : Conf K} {m : Mem} {a next : Addr} {ins : Instr}
    (h : Fetches env m a ins next) (hpc : c.pc = a) (hown : ∀ b, env.own b → c.mem b = m b) :
    Fetched env c ins next := by
  intro m' hm' c'
  exact h { c with mem := m' } c' hpc
    (fun b hb => (own_of_agree hm' b hb).trans (hown b hb))

theorem step_fetched {c : Conf K} {ins : Instr} {next pc : Addr} {x : Regs}
    (hfetch : Fetched env c ins next) (hne : ins ≠ .ecall)
    (h : ∀ m, AgreeAbove env.stack (c.x sp) c.mem m →
      exec id next { c.toCore with mem := m } ins
        = some { c.toCore with pc := pc, x := x, mem := m }) :
    (∃ c', Quiet env c c') ∧ ∀ c', Step env c c' → After env c c' pc x := by
  refine step_register (fun m hm c' => ?_)
  rw [hfetch m hm c']
  constructor
  · intro he
    cases he with
    | step _ core he' =>
        rw [h m hm, Option.some.injEq] at he'
        rw [← he']
    | ecall res m' k' _ => exact absurd rfl hne
  · rintro rfl
    exact ExecInstr.step ins _ (h m hm)

/-- An indirect jump to an even address. -/
theorem step_jalr {c : Conf K} {rd rs : Reg} {next a : Addr}
    (hfetch : Fetched env c (.jalr rd rs 0) next) (ha : c.get rs = a) (heven : EvenAddr a) :
    (∃ c', Quiet env c c') ∧ ∀ c', Step env c c' → After env c c' a (c.x.set rd next) := by
  refine step_fetched hfetch (by simp only [ne_eq, reduceCtorEq, not_false_eq_true])
    (fun m _ => ?_)
  have htarget : jumpTarget (c.get rs + (0 : BitVec 12).signExtend 64) = a := by
    rw [ha, show (0 : BitVec 12).signExtend 64 = 0#64 by decide, BitVec.add_zero]
    exact jumpTarget_even heven
  rw [← htarget]
  rfl

theorem step_jal {c : Conf K} {imm : BitVec 21} {next a : Addr}
    (hfetch : Fetched env c (.jal zero imm) next) (ha : c.pc + imm.signExtend 64 = a) :
    (∃ c', Quiet env c c') ∧ ∀ c', Step env c c' → After env c c' a c.x := by
  refine step_fetched hfetch (by simp only [ne_eq, reduceCtorEq, not_false_eq_true])
    (fun m _ => ?_)
  rw [← ha]
  rfl

theorem step_addi {c : Conf K} {rd rs : Reg} {imm : BitVec 12} {next : Addr}
    (hfetch : Fetched env c (.addi rd rs imm) next) :
    (∃ c', Quiet env c c') ∧ ∀ c', Step env c c' →
      After env c c' next (c.x.set rd (c.get rs + imm.signExtend 64)) :=
  step_fetched hfetch (by simp only [ne_eq, reduceCtorEq, not_false_eq_true]) (fun _ _ => rfl)

/-- A load of a doubleword that is not volatile. -/
theorem step_load {c : Conf K} {rd rs : Reg} {imm : BitVec 12} {next : Addr} {v : Word}
    (hfetch : Fetched env c (.load .double false rd rs imm) next)
    (hv : ∀ m, AgreeAbove env.stack (c.x sp) c.mem m → m.read (effective c.x rs imm) 8 = v) :
    (∃ c', Quiet env c c') ∧ ∀ c', Step env c c' → After env c c' next (c.x.set rd v) := by
  refine step_fetched hfetch (by simp only [ne_eq, reduceCtorEq, not_false_eq_true])
    (fun m hm => ?_)
  rw [← hv m hm, ← extend_double (m.read (effective c.x rs imm) 8)]
  rfl

/-- Loading `relocated_global_pointer` through a register that holds its
    address. -/
theorem step_load_rgp {c : Conf K} {rd rs : Reg} {next : Addr}
    (hfetch : Fetched env c (.load .double false rd rs 0) next) (hrs : c.get rs = env.rgpVar)
    (hm : Installed env c.mem) :
    (∃ c', Quiet env c c') ∧ ∀ c', Step env c c' →
      After env c c' next (c.x.set rd env.rgp) := by
  refine step_load hfetch (fun m hm' => ?_)
  have haddr : effective c.x rs 0 = env.rgpVar := by
    rw [effective, show (0 : BitVec 12).signExtend 64 = 0#64 by decide, BitVec.add_zero]
    exact hrs
  rw [haddr]
  exact (installed_of_own hm (own_of_agree hm')).rgpVar

/-- Loading from the frame at the stack pointer. -/
theorem step_load_frame {c : Conf K} {rd : Reg} {imm : BitVec 12} {base next : Addr}
    (hf : FrameAt env.stack base frameSize) (hsp : c.x sp = base)
    (himm : imm.toNat + 8 ≤ frameSize)
    (hfetch : Fetched env c (.load .double false rd sp imm) next) :
    (∃ c', Quiet env c c') ∧ ∀ c', Step env c c' →
      After env c c' next
        (c.x.set rd (c.mem.read (base + BitVec.ofNat 64 imm.toNat) 8)) := by
  refine step_load hfetch (fun m hm => ?_)
  -- A slot is above the stack pointer, so it reads the same after a disturbance.
  have hmod : Models env.stack base frameSize c.mem _ c.toCore := models_self hsp
  rw [hmod.effective_slot hf imm himm]
  exact hf.read_slot (hsp ▸ hm) himm

section Statements

variable {c : Conf K} {p : Prog} {i : Nat}

/-- A statement that computes registers and program counter alone. -/
theorem step_stmt {s : Stmt} {pc : Addr} {x : Regs} (hpc : c.pc = env.loc p i)
    (hs : p.text[i]? = some s) (h : ∀ m c', ExecStmt env p i { c with mem := m } s c' ↔
      c' = { c with pc := pc, x := x, mem := m }) :
    (∃ c', Quiet env c c') ∧ ∀ c', Step env c c' → After env c c' pc x := by
  refine step_register (fun m _ c' => ?_)
  rw [exec_stmt_iff (c := { c with mem := m }) hs hpc]
  exact h m c'

theorem step_la (rd : Reg) (hpc : c.pc = env.loc p i) (hs : p.text[i]? = some (.la rd)) :
    (∃ c', Quiet env c c') ∧ ∀ c', Step env c c' →
      After env c c' (env.loc p (i + 1)) (c.x.set rd env.rgpVar) := by
  refine step_stmt hpc hs (fun m c' => ⟨fun he => ?_, ?_⟩)
  · cases he
    rfl
  · rintro rfl
    exact ExecStmt.la rd

theorem step_beq (rs1 rs2 : Reg) (target : Label) (hpc : c.pc = env.loc p i)
    (hs : p.text[i]? = some (.beq rs1 rs2 target)) :
    (∃ c', Quiet env c c') ∧ ∀ c', Step env c c' →
      After env c c' (if c.get rs1 = c.get rs2 then env.loc p target.index
        else env.loc p (i + 1)) c.x := by
  refine step_stmt hpc hs (fun m c' => ⟨fun he => ?_, ?_⟩)
  · cases he
    rfl
  · rintro rfl
    exact ExecStmt.beq rs1 rs2 target

theorem step_j (target : Label) (hpc : c.pc = env.loc p i)
    (hs : p.text[i]? = some (.j target)) :
    (∃ c', Quiet env c c') ∧ ∀ c', Step env c c' →
      After env c c' (env.loc p target.index) c.x := by
  refine step_stmt hpc hs (fun m c' => ⟨fun he => ?_, ?_⟩)
  · cases he
    rfl
  · rintro rfl
    exact ExecStmt.j target

theorem step_call (hpc : c.pc = env.loc p i) (hs : p.text[i]? = some .call) :
    (∃ c', Quiet env c c') ∧ ∀ c', Step env c c' →
      After env c c' env.syscallHook (c.x.set ra (env.loc p (i + 1))) := by
  refine step_stmt hpc hs (fun m c' => ⟨fun he => ?_, ?_⟩)
  · cases he
    rfl
  · rintro rfl
    exact ExecStmt.call

end Statements

/-- A system call, after whatever happened below the stack pointer. -/
theorem step_ecall {c : Conf K} {next : Addr} (hfetch : Fetched env c .ecall next)
    (c' : Conf K) : Step env c c' ↔ ∃ m res m' k', AgreeAbove env.stack (c.x sp) c.mem m ∧
      env.kernel { c.toCore with mem := m } c.kst res m' k' ∧
      c' = Conf.afterEcall { c with mem := m } next res m' k' := by
  constructor
  · rintro ⟨m, hm, he⟩
    rw [hfetch m hm c'] at he
    cases he with
    | step _ core he' =>
        exact absurd he' (by simp only [exec, reduceCtorEq, not_false_eq_true])
    | ecall res m' k' hk => exact ⟨m, res, m', k', hm, hk, rfl⟩
  · rintro ⟨m, res, m', k', hm, hk, rfl⟩
    refine ⟨m, hm, (hfetch m hm _).mpr ?_⟩
    exact ExecInstr.ecall (c := { c with mem := m }) res m' k' hk

/-! ## `syscall_hook`

What the C function does is fixed by the calling convention up to the choices of
the compiler. These are the successors for one such choice, in which every
preserved register is spilled. -/

/-- `syscall_hook` without a hook: `a1` is cleared. -/
def nullAnswer (c : Conf K) : Conf K := { c with pc := jumpTarget (c.x ra), x := c.x.set a1 0 }

theorem syscallHookNull_nullAnswer {c : Conf K} (h : env.hookFn c.mem = 0) :
    SyscallHookNull env c (nullAnswer c) := by
  -- `a1` is not a preserved register.
  have hne : ∀ r, calleeSaved r → r ≠ a1 := by decide
  refine ⟨h, rfl, rfl, rfl, rfl, rfl, rfl, fun r hr => ?_, fun _ _ => rfl, AgreeAbove.refl _ _ _,
    rfl, rfl, rfl⟩
  simp +decide only [nullAnswer, Regs.set, if_false, if_neg (hne r hr)]

/-- The activation record. -/
def spillAll (c : Conf K) : Activation :=
  ⟨c.x a0, c.x ra, fun r => some (c.x r), fun r => some (c.f r)⟩

/-- The registers with which the hook is called. -/
def hookArgs (env : Env K) (c : Conf K) : Regs := fun q =>
  if q = ra then env.hookRet
  else if q = sp then c.x sp - BitVec.ofNat 64 env.cframe
  else if q = a0 then c.x a7
  else if q = a1 then c.x a0
  else if q = a2 then c.x a1
  else if q = a3 then c.x a2
  else if q = a4 then c.x a3
  else if q = a5 then c.x a4
  else if q = a6 then c.x a5
  else if q = a7 then c.x sp - BitVec.ofNat 64 env.cframe + BitVec.ofNat 64 env.resultOff
  else c.x q

/-- The thread at the first instruction of the hook. -/
def calledHook (env : Env K) (c : Conf K) : Conf K :=
  { c with
    pc := jumpTarget (env.hookFn c.mem)
    x := hookArgs env c
    activations := spillAll c :: c.activations
    trace := c.trace ++
      [.hookCall { c.toCore with pc := jumpTarget (env.hookFn c.mem), x := hookArgs env c } c.kst] }

theorem syscallHookCall_calledHook {c : Conf K} (h : env.hookFn c.mem ≠ 0) :
    SyscallHookCall env (spillAll c) c (calledHook env c) :=
  ⟨h, rfl, rfl, rfl, rfl, rfl, rfl, rfl, rfl, rfl, rfl, rfl, rfl, rfl, rfl, rfl,
    fun _ _ => Or.inl rfl, fun _ _ => Or.inl rfl, AgreeAbove.refl _ _ _, rfl, rfl, rfl⟩

/-- The registers with which `syscall_hook` returns when its hook has. -/
def answerRegs (env : Env K) (act : Activation) (c : Conf K) : Regs := fun q =>
  if q = a0 then (if forwardToKernel c.x then act.a0
    else c.mem.read (c.x sp + BitVec.ofNat 64 env.resultOff) 8)
  else if q = a1 then (if forwardToKernel c.x then 0 else 1)
  else if q = sp then c.x sp + BitVec.ofNat 64 env.cframe
  else if calleeSaved q then (act.saved q).getD (c.x q) else c.x q

/-- The thread when `syscall_hook` has returned. -/
def hookAnswer (env : Env K) (act : Activation) (rest : List Activation) (c : Conf K) : Conf K :=
  { c with
    pc := jumpTarget act.ra
    x := answerRegs env act c
    f := fun q => if calleeSaved q then (act.savedF q).getD (c.f q) else c.f q
    activations := rest
    trace := c.trace ++ [.hookReturn c.toCore c.kst] }

theorem syscallHookReturn_hookAnswer {c : Conf K} {act : Activation} {rest : List Activation}
    (h : c.activations = act :: rest) :
    SyscallHookReturn env act rest c (hookAnswer env act rest c) := by
  -- The registers with an answer in them are not preserved ones.
  have hne : ∀ q, calleeSaved q → q ≠ a0 ∧ q ≠ a1 ∧ q ≠ sp := by decide
  refine ⟨h, rfl, rfl, rfl, rfl, rfl, rfl, fun q hq => ?_, fun q hq => if_pos hq,
    AgreeAbove.refl _ _ _, rfl, rfl, rfl⟩
  rcases hne q hq with ⟨h0, h1, h2⟩
  simp only [hookAnswer, answerRegs, if_neg h0, if_neg h1, if_neg h2, if_pos hq]

/-- `syscall_hook` returns at once or calls the hook. -/
theorem quiet_syscallHook {c : Conf K} (hpc : c.pc = env.syscallHook) : ∃ c', Quiet env c c' := by
  have hregion : env.region c.pc = .syscallHook := hpc ▸ env.region_syscallHook
  by_cases hhook : env.hookFn c.mem = 0
  · refine ⟨nullAnswer c, ?_, fun _ _ => rfl⟩
    simp only [Exec, hregion]
    exact Or.inl (syscallHookNull_nullAnswer hhook)
  · refine ⟨calledHook env c, ?_, fun _ _ => rfl⟩
    simp only [Exec, hregion]
    exact Or.inr ⟨_, syscallHookCall_calledHook hhook⟩

/-- It returns when its hook does. -/
theorem quiet_hookRet {c : Conf K} (hpc : c.pc = env.hookRet) (hacts : c.activations ≠ []) :
    ∃ c', Quiet env c c' := by
  have hregion : env.region c.pc = .hookReturn := hpc ▸ env.region_hookRet
  rcases List.exists_cons_of_ne_nil hacts with ⟨act, rest, hact⟩
  refine ⟨hookAnswer env act rest c, ?_, fun _ _ => rfl⟩
  simp only [Exec, hregion]
  exact ⟨act, rest, syscallHookReturn_hookAnswer hact⟩

/-- Such an instruction leaves the frame as it was. -/
theorem Models.after {base : Addr} {size : Nat} {m : Mem} {y : Sym} {c c' : Conf K} {pc : Addr}
    {x : Regs} (hf : FrameAt env.stack base size) (h : Models env.stack base size m y c.toCore)
    (ha : After env c c' pc x) (hx : x RV64.sp = base) :
    Models env.stack base size m { y with x := x } c'.toCore := by
  have hsp : c.x RV64.sp = base := (congrFun h.x RV64.sp).trans h.sp
  have hpert := h.perturb hf (hsp ▸ ha.mem)
  exact ⟨ha.x, ha.f.trans h.f, hx, hpert.slots, hpert.mem⟩

end Vpoline
