import Vpoline.Lib.Frame

/-!
# Running Words of Code

A piece of code is a list of words placed at an address. `runWords` fetches
the word at the program counter, decodes it and executes it, a given number of
times. The words are not part of the memory that the code computes on. They
stand for code in a page that can be executed and not written, so no store
changes them, wherever the stack pointer and the other registers point.

Most code is straight-line: each instruction goes on to the next one.
`runWords_block` says that running such a stretch is executing its
instructions in order. A stretch that computes in registers alone is already
described by its symbolic run, and `execAll_register` carries that over.

## Main definitions

* `sequential`: Instructions that go on to the next one.
* `registerOnly`: Instructions that only change integer registers.
* `wordAt`: The word at an address.
* `runWords`: A number of steps of the machine.
* `execAll`: Instructions in order.

## Theorems

* `exec_sequential`: The program counter after a sequential instruction.
* `runWords_add`: Running in two parts.
* `runWords_block`: Running a straight-line stretch.
* `execAll_append`: Executing a concatenation.
* `execAll_register`: A stretch that computes in registers.
-/

namespace Vpoline

open RV64

/-- Instructions that go on to the next one. -/
def sequential : Instr → Bool
  | .jal _ _ => false
  | .jalr _ _ _ => false
  | .ecall => false
  | .ebreak => false
  | _ => true

theorem exec_sequential {next : Addr} {c core : Core} {ins : Instr}
    (hs : sequential ins = true) (he : exec id next c ins = some core) : core.pc = next := by
  cases ins
  case jal rd imm => exact absurd hs Bool.false_ne_true
  case jalr rd rs1 imm => exact absurd hs Bool.false_ne_true
  case ecall => exact absurd hs Bool.false_ne_true
  case ebreak => exact absurd hs Bool.false_ne_true
  all_goals
    simp only [exec, Option.some.injEq] at he
    rw [← he, Core.goto]

/-- Instructions that only change integer registers. -/
def registerOnly : Instr → Bool
  | .lui _ _ => true
  | .addi _ _ _ => true
  | .ori _ _ _ => true
  | .slli _ _ _ => true
  | .srli _ _ _ => true
  | .or _ _ _ => true
  | .and _ _ _ => true
  | _ => false

/-- The word at `pc`, in code that starts at `base`. -/
def wordAt (base : Addr) (ws : List (BitVec 32)) (pc : Addr) : Option (BitVec 32) :=
  if (pc - base).toNat % 4 = 0 then ws[(pc - base).toNat / 4]? else none

/-- One instruction: fetch, decode, execute. -/
def stepWord (base : Addr) (ws : List (BitVec 32)) (c : Core) : Option Core :=
  (wordAt base ws c.pc).bind (fun w => (decode w).bind (exec id (c.pc + 4) c))

/-- A number of instructions. -/
def runWords (base : Addr) (ws : List (BitVec 32)) : Nat → Core → Option Core
  | 0, c => some c
  | n + 1, c => (stepWord base ws c).bind (runWords base ws n)

/-- The instructions `is`, each at the address behind the one before. -/
def execAll (c : Core) : List Instr → Option Core
  | [] => some c
  | i :: is => (exec id (c.pc + 4) c i).bind (fun c' => execAll c' is)

section Run

variable {base : Addr} {ws : List (BitVec 32)}

theorem runWords_add (n : Nat) : ∀ (m : Nat) (c : Core),
    runWords base ws (m + n) c = (runWords base ws m c).bind (runWords base ws n) := by
  intro m
  induction m with
  | zero =>
      intro c
      rw [Nat.zero_add, runWords, Option.bind_some]
  | succ m ih =>
      intro c
      rw [Nat.succ_add, runWords, runWords, Option.bind_assoc]
      exact congrArg _ (funext ih)

/-- The instruction behind a prefix of the code. -/
theorem stepWord_eq {pre post : List Instr} {i : Instr} {c : Core}
    (hws : ws.map decode = (pre ++ i :: post).map some) (hsmall : 4 * ws.length < 2 ^ 64)
    (hpc : c.pc = base + BitVec.ofNat 64 (4 * pre.length)) :
    stepWord base ws c = exec id (c.pc + 4) c i := by
  have hlen : ws.length = pre.length + (post.length + 1) := by
    have := congrArg List.length hws
    rwa [List.length_map, List.length_map, List.length_append, List.length_cons] at this
  have hoff : (c.pc - base).toNat = 4 * pre.length := by
    rw [hpc]
    bv_omega
  have hget : (ws.map decode)[pre.length]? = some (some i) := by
    rw [hws, List.getElem?_map, List.getElem?_append_right (Nat.le_refl _), Nat.sub_self]
    rfl
  rw [List.getElem?_map] at hget
  rcases Option.map_eq_some_iff.mp hget with ⟨w, hw, hdec⟩
  unfold stepWord wordAt
  rw [hoff, if_pos (Nat.mul_mod_right 4 pre.length), Nat.mul_div_cancel_left _ (by omega), hw,
    Option.bind_some, hdec, Option.bind_some]

/-- Running a straight-line stretch of the code. The induction is on the
    stretch, and its first instruction moves to the prefix. -/
theorem runWords_block {post : List Instr} (hsmall : 4 * ws.length < 2 ^ 64) :
    ∀ (is pre : List Instr) (c c' : Core), ws.map decode = (pre ++ is ++ post).map some →
    (∀ i ∈ is, sequential i = true) → c.pc = base + BitVec.ofNat 64 (4 * pre.length) →
    execAll c is = some c' →
    runWords base ws is.length c = some c' ∧
      c'.pc = base + BitVec.ofNat 64 (4 * (pre ++ is).length) := by
  intro is
  induction is with
  | nil =>
      intro pre c c' _ _ hpc hrun
      rw [execAll, Option.some.injEq] at hrun
      subst hrun
      rw [List.append_nil]
      exact ⟨rfl, hpc⟩
  | cons i is ih =>
      intro pre c c' hws hseq hpc hrun
      rcases Option.bind_eq_some_iff.mp hrun with ⟨c₁, hc₁, hrest⟩
      have hpc₁ : c₁.pc = base + BitVec.ofNat 64 (4 * (pre ++ [i]).length) := by
        rw [exec_sequential (hseq i List.mem_cons_self) hc₁, hpc, List.length_append,
          List.length_singleton]
        bv_omega
      -- The rest of the stretch has the first instruction in its prefix.
      have hsplit : pre ++ i :: is = pre ++ [i] ++ is := by
        rw [List.append_assoc, List.singleton_append]
      have hws₁ : ws.map decode = (pre ++ [i] ++ is ++ post).map some := by
        rw [hws, hsplit]
      rcases ih (pre ++ [i]) c₁ c' hws₁ (fun j hj => hseq j (List.mem_cons_of_mem _ hj)) hpc₁
        hrest with ⟨hrun₁, hpc'⟩
      refine ⟨?_, ?_⟩
      · rw [List.append_assoc, List.cons_append] at hws
        rw [List.length_cons, runWords, stepWord_eq hws hsmall hpc, hc₁, Option.bind_some]
        exact hrun₁
      · rw [hsplit]
        exact hpc'

theorem execAll_append : ∀ (l₁ l₂ : List Instr) (c : Core),
    execAll c (l₁ ++ l₂) = (execAll c l₁).bind (fun c' => execAll c' l₂) := by
  intro l₁
  induction l₁ with
  | nil => intro l₂ c; rfl
  | cons i is ih =>
      intro l₂ c
      simp only [List.cons_append, execAll, Option.bind_assoc, ih]

/-- One register instruction does on the machine what it does symbolically. -/
theorem exec_register {size : Nat} {y y' : Sym} {c : Core} {i : Instr} (next : Addr)
    (hreg : registerOnly i = true) (hx : c.x = y.x) (hy : y.exec size i = some y') :
    ∃ c', exec id next c i = some c' ∧ c'.x = y'.x ∧ c'.f = c.f ∧ c'.mem = c.mem := by
  have hset : ∀ rd v, y.setX rd v = some y' → (c.set rd v).x = y'.x := by
    intro rd v hv
    unfold Sym.setX at hv
    by_cases hsp : rd = sp
    · rw [if_pos hsp] at hv
      exact absurd hv (by simp only [reduceCtorEq, not_false_eq_true])
    · rw [if_neg hsp, Option.some.injEq] at hv
      rw [← hv, Core.set, hx]
  have hget : ∀ r, c.get r = y.x.get r := fun r => by rw [Core.get, hx]
  cases i with
  | lui rd imm => exact ⟨_, rfl, hset _ _ hy, rfl, rfl⟩
  | addi rd rs1 imm => exact ⟨_, rfl, hset _ _ (by rw [hget]; exact hy), rfl, rfl⟩
  | ori rd rs1 imm => exact ⟨_, rfl, hset _ _ (by rw [hget]; exact hy), rfl, rfl⟩
  | slli rd rs1 shamt => exact ⟨_, rfl, hset _ _ (by rw [hget]; exact hy), rfl, rfl⟩
  | srli rd rs1 shamt => exact ⟨_, rfl, hset _ _ (by rw [hget]; exact hy), rfl, rfl⟩
  | or rd rs1 rs2 => exact ⟨_, rfl, hset _ _ (by rw [hget, hget]; exact hy), rfl, rfl⟩
  | and rd rs1 rs2 => exact ⟨_, rfl, hset _ _ (by rw [hget, hget]; exact hy), rfl, rfl⟩
  | load w u rd rs1 imm => exact absurd hreg Bool.false_ne_true
  | store w rs2 rs1 imm => exact absurd hreg Bool.false_ne_true
  | fload w rd rs1 imm => exact absurd hreg Bool.false_ne_true
  | fstore w rs2 rs1 imm => exact absurd hreg Bool.false_ne_true
  | jal rd imm => exact absurd hreg Bool.false_ne_true
  | jalr rd rs1 imm => exact absurd hreg Bool.false_ne_true
  | ecall => exact absurd hreg Bool.false_ne_true
  | ebreak => exact absurd hreg Bool.false_ne_true

/-- A stretch that computes in registers does on the machine what it does
    symbolically. -/
theorem execAll_register {size : Nat} : ∀ (is : List Instr) (y y' : Sym) (c : Core),
    (∀ i ∈ is, registerOnly i = true) → c.x = y.x → y.run size is = some y' →
    ∃ c', execAll c is = some c' ∧ c'.x = y'.x ∧ c'.f = c.f ∧ c'.mem = c.mem := by
  intro is
  induction is with
  | nil =>
      intro y y' c _ hx hrun
      rw [Sym.run, Option.some.injEq] at hrun
      exact ⟨c, rfl, hrun ▸ hx, rfl, rfl⟩
  | cons i is ih =>
      intro y y' c hreg hx hrun
      rcases Option.bind_eq_some_iff.mp hrun with ⟨y₁, hy₁, hrest⟩
      rcases exec_register (c.pc + 4) (hreg i List.mem_cons_self) hx hy₁
        with ⟨c₁, hc₁, hx₁, hf₁, hm₁⟩
      rcases ih y₁ y' c₁ (fun j hj => hreg j (List.mem_cons_of_mem _ hj)) hx₁ hrest
        with ⟨c', hc', hx', hf', hm'⟩
      refine ⟨c', ?_, hx', hf'.trans hf₁, hm'.trans hm₁⟩
      rw [execAll, hc₁, Option.bind_some]
      exact hc'

end Run

end Vpoline
