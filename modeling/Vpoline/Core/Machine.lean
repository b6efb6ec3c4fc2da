import Vpoline.Core.Patcher
import Vpoline.Lib.Inevitable
import Vpoline.Lib.Page

/-!
# The Machine vpoline Runs On

One thread of a process into which vpoline has been loaded, as a step
relation at the level of single instructions.

Different code runs under different rules, and `Region` says which rule an
address falls under. The trampoline, the return sequence and the patched
sites are words in memory, fetched and decoded. The inline assembly is a list
of statements at the addresses the assembler gave them. `syscall_hook` is C,
so it runs by the C calling convention: the compiler decides which registers
it spills and how large its frame is, and the step relation leaves that open.
Everything else, the hook library and the application included, is `foreign`
and arbitrary.

`Step` lets any volatile byte below the stack pointer change before each
instruction. A signal delivered there would push its frame into exactly that
memory and be gone again before the thread resumes.

The `trace` records what an observer of the thread would see: hook calls,
hook returns and system calls, each with the state it happened in.

## Main definitions

* `Event`: What a thread is observed to do.
* `Activation`: The C activation record of `syscall_hook`.
* `Conf`: The state of a thread.
* `Region`: What kind of code an address holds.
* `Env`: Everything about the process that does not change.
* `Env.own`: The bytes of vpoline's own code and variables.
* `SyscallHookNull`, `SyscallHookCall`, `SyscallHookReturn`: The C function
  `syscall_hook`.
* `ExecInstr`: One machine instruction.
* `ExecStmt`: One assembly statement.
* `Exec`: One instruction, by the rule of its region.
* `Step`: One instruction after an arbitrary change below the stack pointer.
* `Installed`: The injected words and the variables are in place.
* `AtSite`: A thread about to execute a patched site.
* `returnWord`: The address of a return word.

## Theorems

* `jumpTarget_even`: An even address is its own jump target.
* `installed_of_own`: Installation is a fact about vpoline's own bytes.
-/

namespace Vpoline

open RV64

/-- What an observer records, with the hart and the kernel state at the time. -/
inductive Event (K : Type)
  | hookCall (c : Core) (k : K)
  | hookReturn (c : Core) (k : K)
  | ecall (c : Core) (k : K)

/-- What `syscall_hook` keeps across the call of `hook_fn`: its first
    argument, its return address, and the callee-saved registers that the
    compiler chose to spill. -/
structure Activation where
  a0 : Word
  ra : Word
  saved : Reg → Option Word
  savedF : Reg → Option Word

/-- A thread: its hart, the pending activations of `syscall_hook`, the state
    of the kernel, and what has been observed so far. -/
structure Conf (K : Type) extends Core where
  activations : List Activation
  kst : K
  trace : List (Event K)

/-- What kind of code an address holds. -/
inductive Region
  | words
  | asm (p : Prog) (i : Nat)
  | syscallHook
  | hookReturn
  | foreign
deriving DecidableEq, Repr

/-- The bytes of the injected code and of vpoline's two variables. -/
def ownByte (rgp rgpVar hookFnVar a : Addr) : Prop :=
  (a - (rgp - 56)).toNat < 136 ∨ (a - rgpVar).toNat < 8 ∨ (a - hookFnVar).toNat < 8

/-- Instructions sit at even addresses. -/
def EvenAddr (a : Addr) : Prop := a.toNat % 2 = 0

instance (a : Addr) : Decidable (EvenAddr a) := inferInstanceAs (Decidable (a.toNat % 2 = 0))

/-- The process around the thread. The addresses are the loader's, the frame
    of `syscall_hook` is the compiler's, and `foreign` and `kernel` are the
    code vpoline does not contain. -/
structure Env (K : Type) where
  /-- `relocated_gp`, the value of `relocated_global_pointer`. -/
  rgp : Addr
  /-- The address of the variable `relocated_global_pointer`. -/
  rgpVar : Addr
  /-- The address of the variable `hook_fn`. -/
  hookFnVar : Addr
  /-- The address of each assembly statement. -/
  loc : Prog → Nat → Addr
  /-- The entry of `syscall_hook`. -/
  syscallHook : Addr
  /-- The address `hook_fn` returns to inside `syscall_hook`. -/
  hookRet : Addr
  /-- The size of the frame of `syscall_hook`. -/
  cframe : Nat
  /-- The offset of `result` in that frame. -/
  resultOff : Nat
  region : Addr → Region
  /-- The bytes a signal frame may be pushed to. -/
  stack : Addr → Prop
  foreign : Conf K → Conf K → Prop
  /-- `kernel c k res m k'`: the system call issued in `c` and `k` returns
      `res`, leaving memory `m` and kernel state `k'`. -/
  kernel : Core → K → Word → Mem → K → Prop
  -- What is where.
  region_trampoline : ∀ i, i < 20 → region (rgp + BitVec.ofNat 64 (4 * i)) = .words
  region_return : ∀ i, i < 14 → region (rgp - 56 + BitVec.ofNat 64 (4 * i)) = .words
  region_loc : ∀ p i, i < p.text.length → region (loc p i) = .asm p i
  region_syscallHook : region syscallHook = .syscallHook
  region_hookRet : region hookRet = .hookReturn
  rgp_even : EvenAddr rgp
  loc_even : ∀ p i, EvenAddr (loc p i)
  hookRet_even : EvenAddr hookRet
  -- `result` is a local variable of `syscall_hook`.
  result_fits : resultOff + 8 ≤ cframe
  cframe_small : cframe < 2 ^ 32
  own_not_stack : ∀ a, ownByte rgp rgpVar hookFnVar a → ¬ stack a
  foreign_trace : ∀ c c', foreign c c' → c.trace <+: c'.trace

variable {K : Type} (env : Env K)

def Env.own (a : Addr) : Prop := ownByte env.rgp env.rgpVar env.hookFnVar a

/-- The address of `asm_syscall_hook`, the `dst` of the trampoline. -/
def Env.dst : Addr := env.loc .asmSyscallHook 0

/-- The value of the variable `hook_fn`. -/
def Env.hookFn (m : Mem) : Word := m.read env.hookFnVar 8

/-- A jump target as `jalr` uses it, its low bit cleared. -/
def jumpTarget (a : Addr) : Addr := a &&& ~~~1

/-- `syscall_hook` when `hook_fn == NULL`: it returns `{ a0, 0 }`. -/
structure SyscallHookNull (c c' : Conf K) : Prop where
  null : env.hookFn c.mem = 0
  pc : c'.pc = jumpTarget (c.x ra)
  a0 : c'.x a0 = c.x a0
  a1 : c'.x a1 = 0
  sp : c'.x sp = c.x sp
  gp : c'.x gp = c.x gp
  tp : c'.x tp = c.x tp
  saved : ∀ r, calleeSaved r → c'.x r = c.x r
  savedF : ∀ r, calleeSaved r → c'.f r = c.f r
  mem : AgreeAbove env.stack (c.x RV64.sp) c.mem c'.mem
  activations : c'.activations = c.activations
  kst : c'.kst = c.kst
  trace : c'.trace = c.trace

/-- `syscall_hook` up to its call `hook_fn(a7, a0, a1, a2, a3, a4, a5, &result)`. -/
structure SyscallHookCall (act : Activation) (c c' : Conf K) : Prop where
  hook : env.hookFn c.mem ≠ 0
  pc : c'.pc = jumpTarget (env.hookFn c.mem)
  ra : c'.x ra = env.hookRet
  sp : c'.x sp = c.x sp - BitVec.ofNat 64 env.cframe
  gp : c'.x gp = c.x gp
  tp : c'.x tp = c.x tp
  a0 : c'.x a0 = c.x a7
  a1 : c'.x a1 = c.x RV64.a0
  a2 : c'.x a2 = c.x RV64.a1
  a3 : c'.x a3 = c.x RV64.a2
  a4 : c'.x a4 = c.x RV64.a3
  a5 : c'.x a5 = c.x RV64.a4
  a6 : c'.x a6 = c.x RV64.a5
  a7 : c'.x RV64.a7 = c.x RV64.sp - BitVec.ofNat 64 env.cframe + BitVec.ofNat 64 env.resultOff
  -- What the compiled code needs after the call.
  act_a0 : act.a0 = c.x RV64.a0
  act_ra : act.ra = c.x RV64.ra
  saved : ∀ r, calleeSaved r →
    act.saved r = some (c.x r) ∨ act.saved r = none ∧ c'.x r = c.x r
  savedF : ∀ r, calleeSaved r →
    act.savedF r = some (c.f r) ∨ act.savedF r = none ∧ c'.f r = c.f r
  mem : AgreeAbove env.stack (c.x RV64.sp) c.mem c'.mem
  activations : c'.activations = act :: c.activations
  kst : c'.kst = c.kst
  trace : c'.trace = c.trace ++ [.hookCall c'.toCore c.kst]

/-- The `int` a hook returns, as the `bool forward_to_kernel`. -/
def forwardToKernel (x : Regs) : Bool := (x a0).setWidth 32 != 0#32

/-- `syscall_hook` after `hook_fn` has returned: `{ a0, 0 }` to forward,
    `{ result, 1 }` if the hook handled the call. -/
structure SyscallHookReturn (act : Activation) (rest : List Activation) (c c' : Conf K) :
    Prop where
  pending : c.activations = act :: rest
  pc : c'.pc = jumpTarget act.ra
  a0 : c'.x a0 = if forwardToKernel c.x then act.a0
    else c.mem.read (c.x sp + BitVec.ofNat 64 env.resultOff) 8
  a1 : c'.x a1 = if forwardToKernel c.x then 0 else 1
  sp : c'.x sp = c.x sp + BitVec.ofNat 64 env.cframe
  gp : c'.x gp = c.x gp
  tp : c'.x tp = c.x tp
  saved : ∀ r, calleeSaved r → c'.x r = (act.saved r).getD (c.x r)
  savedF : ∀ r, calleeSaved r → c'.f r = (act.savedF r).getD (c.f r)
  mem : AgreeAbove env.stack (c.x RV64.sp + BitVec.ofNat 64 env.cframe) c.mem c'.mem
  activations : c'.activations = rest
  kst : c'.kst = c.kst
  trace : c'.trace = c.trace ++ [.hookReturn c.toCore c.kst]

/-- A system call: the kernel returns its result in `a0` and keeps every
    other register. -/
def Conf.afterEcall (c : Conf K) (next : Addr) (res : Word) (m : Mem) (k' : K) : Conf K :=
  { c with
    pc := next
    x := c.x.set a0 res
    mem := m
    kst := k'
    trace := c.trace ++ [.ecall c.toCore c.kst] }

/-- One machine instruction, with `next` the address after it. -/
inductive ExecInstr (next : Addr) (c : Conf K) : Instr → Conf K → Prop
  | step (ins : Instr) (core : Core) :
      exec id next c.toCore ins = some core → ExecInstr next c ins { c with toCore := core }
  | ecall (res : Word) (m : Mem) (k' : K) :
      env.kernel c.toCore c.kst res m k' → ExecInstr next c .ecall (c.afterEcall next res m k')

/-- One assembly statement at position `i` of `p`. -/
inductive ExecStmt (p : Prog) (i : Nat) (c : Conf K) : Stmt → Conf K → Prop
  | ins (ins : Instr) (c' : Conf K) :
      ExecInstr env (env.loc p (i + 1)) c ins c' → ExecStmt p i c (.ins ins) c'
  | la (rd : Reg) :
      ExecStmt p i c (.la rd)
        { c with toCore := (c.set rd env.rgpVar).goto (env.loc p (i + 1)) }
  | beq (rs1 rs2 : Reg) (target : Label) :
      ExecStmt p i c (.beq rs1 rs2 target)
        { c with pc := if c.get rs1 = c.get rs2 then env.loc p target.index
          else env.loc p (i + 1) }
  | j (target : Label) :
      ExecStmt p i c (.j target) { c with pc := env.loc p target.index }
  | call :
      ExecStmt p i c .call
        { c with toCore := (c.set ra (env.loc p (i + 1))).goto env.syscallHook }

/-- One instruction, by the rule of the region the program counter is in. -/
def Exec (c c' : Conf K) : Prop :=
  match env.region c.pc with
  | .words => ∃ ins, decode (c.mem.read c.pc 4) = some ins ∧ ExecInstr env (c.pc + 4) c ins c'
  | .asm p i => ∃ s, p.text[i]? = some s ∧ ExecStmt env p i c s c'
  -- C code runs in one step up to the hook, and in another from there.
  | .syscallHook => SyscallHookNull env c c' ∨ ∃ act, SyscallHookCall env act c c'
  | .hookReturn => ∃ act rest, SyscallHookReturn env act rest c c'
  | .foreign => env.foreign c c'

/-- Any volatile byte below the stack pointer may change before each
    instruction. -/
def Step (c c' : Conf K) : Prop :=
  ∃ m, AgreeAbove env.stack (c.x sp) c.mem m ∧ Exec env { c with mem := m } c'

/-- vpoline is initialised: the trampoline is at `relocated_gp`, the return
    sequence right below it, and the variable holds `relocated_gp`. -/
structure Installed (m : Mem) : Prop where
  trampoline : WordsAt m env.rgp (setupShadowPageTrampoline env.dst)
  ret : WordsAt m (env.rgp - 56) setupReturn
  rgpVar : m.read env.rgpVar 8 = env.rgp

/-- The address of return word `i`. -/
def returnWord (i : Nat) : Addr := env.rgp - 56 + BitVec.ofNat 64 (4 * i)

/-- The size of the frame the trampoline opens. -/
def frameSize : Nat := 304

/-- There is stack below `p` for the trampoline's frame and `syscall_hook`'s. -/
structure Room (p : Addr) : Prop where
  fits : frameSize + env.cframe ≤ p.toNat
  stack : ∀ a, p - BitVec.ofNat 64 (frameSize + env.cframe) ≤ a → a < p → env.stack a

/-- A thread about to execute a patched site, with `gp` as vpoline keeps it. -/
structure AtSite (c : Conf K) : Prop where
  region : env.region c.pc = .words
  even : EvenAddr c.pc
  word : c.mem.read c.pc 4 = patchedEcall
  text : ∀ k, k < 4 → ¬ env.stack (c.pc + BitVec.ofNat 64 k)
  gp : c.x gp = env.rgp
  installed : Installed env c.mem
  room : Room env (c.x sp)

theorem jumpTarget_even {a : Addr} (h : EvenAddr a) : jumpTarget a = a := by
  have hdown : (alignDown a 2).toNat = a.toNat - a.toNat % 2 ^ 1 :=
    toNat_alignDown a 2 1 (by omega) rfl
  apply BitVec.eq_of_toNat_eq
  rw [EvenAddr] at h
  exact hdown.trans (by omega)

variable {env} in
/-- Installation is a fact about vpoline's own bytes. -/
theorem installed_of_own {m m' : Mem} (h : Installed env m)
    (heq : ∀ a, env.own a → m' a = m a) : Installed env m' := by
  refine ⟨h.trampoline.congr (by rw [length_trampoline]; decide)
    (fun b hb => heq _ (Or.inl ?_)), h.ret.congr (by decide) (fun b hb => heq _ (Or.inl ?_)), ?_⟩
  · have hlen : (b - env.rgp).toNat < 80 := hb
    bv_omega
  · have hlen : (b - (env.rgp - 56)).toNat < 56 := hb
    omega
  · rw [← h.rgpVar]
    refine Mem.read_congr (fun k hk => heq _ (Or.inr (Or.inl ?_)))
    bv_omega

end Vpoline
