import Vpoline.Core.Signals

/-!
# The Process Without vpoline

The same program, loaded by itself: its `ecall`s are still there, `gp` is
where the linker put it, and there is no injected code. The kernel it runs on
is one that the hook is a part of. Some calls the hook answers, and it
forwards all others to the kernel proper. This is what a process under vpoline
is meant to be indistinguishable from.

Application code is a relation, as it is under vpoline. The bytes below the
stack pointer are as volatile here as there, since this process receives
signals too.

`NativeStep` only takes steps that the program is entitled to. There has to be
room on the stack at a system call, the call is not `rt_sigreturn`, it has its
results written to the program's data and not to code or below the stack
pointer, and control stays in the program. A state in which the program might
break one of these rules, depending on what it finds below the stack pointer,
has no successor.

## Main definitions

* `Program`: What is known of the program and the hook.
* `SiteByte`: The bytes of the patched sites.
* `SameIssue`, `SameRequest`: Two harts that make the same system call.
* `AtEcall`: The native process is about to make a system call.
* `NativeExec`: One instruction of the native process.
* `NativeStep`: One instruction of a process that keeps the rules.
-/

namespace Vpoline

open RV64

variable {K : Type}

/-- The bytes of the patched sites. -/
def SiteByte (sites : Addr → Prop) (a : Addr) : Prop := ∃ s, sites s ∧ (a - s).toNat < 4

/-- A program, and the hook that it is to run under. -/
structure Program (K : Type) where
  /-- The addresses of its `ecall`s. -/
  sites : Addr → Prop
  /-- The bytes that it can see. -/
  shared : Addr → Prop
  /-- Its global pointer, as the linker chose it. -/
  gp : Addr
  /-- One instruction of it that is no system call. -/
  app : Conf K → Conf K → Prop
  /-- The value of `hook_fn`. -/
  hookFn : Word
  /-- The hook forwards the call of a hart. -/
  forwards : Core → Bool
  /-- The result that it gives to a call instead, and the memory it leaves. -/
  answers : Core → Word → Mem → Prop

/-- Two harts that issue the same system call, as far as the bytes `shared` and
    all registers but the ones that vpoline has yet to restore tell. -/
structure SameIssue (shared : Addr → Prop) (k k' : Core) : Prop where
  regs : ∀ r, r ∉ [t0, sp, gp] → k'.get r = k.get r
  f : k'.f = k.f
  mem : ∀ a, shared a → k'.mem a = k.mem a

/-- The same for what a hook may look at, which does not include the bytes below
    the stack pointer. -/
structure SameRequest (env : Env K) (prog : Program K) (k k' : Core) : Prop where
  regs : ∀ r, r ∉ [t0, sp, gp] → k'.get r = k.get r
  f : k'.f = k.f
  mem : ∀ a, prog.shared a → ¬ (env.stack a ∧ a < k.x sp) → k'.mem a = k.mem a

section Native

variable (env : Env K) (prog : Program K)

/-- The bytes that a system call of `n` must not be made to write: vpoline's,
    the program's `ecall`s, and those below its own stack pointer. -/
def OffLimits (n : Conf K) (a : Addr) : Prop :=
  env.own a ∨ SiteByte prog.sites a ∨ (env.stack a ∧ a < n.x sp)

/-- About to make a system call that the program is entitled to. The bytes that
    are off limits are left alone in whatever hart the call is made, since what
    the kernel writes to is in the arguments. -/
structure AtEcall (n : Conf K) : Prop where
  site : prog.sites n.pc
  word : decode (n.mem.read n.pc 4) = some .ecall
  number : n.get a7 ≠ 139
  room : Room env (n.x sp)
  next : App env prog.sites (n.pc + 4)
  kernelLeaves : prog.forwards n.toCore = true → ∀ k res m kst',
    SameIssue prog.shared n.toCore k → env.kernel k n.kst res m kst' →
    ∀ a, OffLimits env prog n a → m a = k.mem a
  hookLeaves : prog.forwards n.toCore = false → ∀ res m, prog.answers n.toCore res m →
    ∀ a, SiteByte prog.sites a → m a = n.mem a

/-- One instruction of the native process. -/
inductive NativeExec : Conf K → Conf K → Prop
  | app (n n' : Conf K) : env.region n.pc = .foreign → prog.app n n' →
      App env prog.sites n'.pc → NativeExec n n'
  | forwarded (n : Conf K) (res : Word) (m : Mem) (k' : K) : AtEcall env prog n →
      prog.forwards n.toCore = true → env.kernel n.toCore n.kst res m k' →
      NativeExec n (n.afterEcall (n.pc + 4) res m k')
  | answered (n : Conf K) (res : Word) (m : Mem) : AtEcall env prog n →
      prog.forwards n.toCore = false → prog.answers n.toCore res m →
      NativeExec n { n with pc := n.pc + 4, x := n.x.set a0 res, mem := m }

/-- Whatever is below the stack pointer, the program can go on. -/
def Orderly (n : Conf K) : Prop :=
  ∀ m, AgreeAbove env.stack (n.x sp) n.mem m →
    ∃ n', NativeExec env prog { n with mem := m } n'

/-- One instruction, after an arbitrary change below the stack pointer. -/
def NativeStep (n n' : Conf K) : Prop :=
  Orderly env prog n ∧
    ∃ m, AgreeAbove env.stack (n.x sp) n.mem m ∧ NativeExec env prog { n with mem := m } n'

end Native

end Vpoline
