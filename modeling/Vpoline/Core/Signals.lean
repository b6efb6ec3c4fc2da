import Vpoline.Core.Machine

/-!
# Threads That Receive Signals

A thread with explicit signal delivery, for the question what `gp` holds when
a handler runs.

`Step` already allows for the memory a signal frame may occupy, but there the
handler is gone before the thread goes on. Here it runs: delivery saves the
registers and starts the handler with the `gp` of the code it interrupts, the
handler executes application code and patched sites of its own, and returning
from it restores the saved registers. Handlers nest.

The rest of the process is held to what `main.c` relies on. Code and vpoline's
variables are not overwritten, application code does not touch `gp`, and
control enters vpoline only where vpoline offers it: at a patched site, at
`syscall_no_intercept`, and at the return of a hook.

`GpWindow` lists the addresses at which `gp` is not `relocated_gp` but the
return address of a patched site: from the trampoline up to the instruction
of `asm_syscall_hook` that reloads `gp`, and from the instruction of the
return sequence that loads the return address up to the final jump.

## Main definitions

* `Context`: What delivery saves.
* `Thread`: A thread with the contexts its handlers return to.
* `App`: Application code.
* `Lands`: Where control may go from outside vpoline.
* `Kept`: Nobody writes code or vpoline's variables.
* `SigStep`: One instruction, the delivery of a signal, or its end.
* `GpWindow`: Where `gp` is borrowed.
-/

namespace Vpoline

open RV64

variable {K : Type}

/-- What the kernel saves of the interrupted code. The pending activations of
    `syscall_hook` are on its stack. -/
structure Context where
  pc : Addr
  x : Regs
  f : Reg → Word
  activations : List Activation

def Conf.context (c : Conf K) : Context := ⟨c.pc, c.x, c.f, c.activations⟩

/-- `sigreturn`: all registers are restored, memory is as the handler left it. -/
def Conf.restore (c : Conf K) (ctx : Context) : Conf K :=
  { c with pc := ctx.pc, x := ctx.x, f := ctx.f, activations := ctx.activations }

/-- A thread and the contexts its handlers return to, innermost first. -/
structure Thread (K : Type) where
  conf : Conf K
  contexts : List Context

variable (env : Env K) (sites : Addr → Prop)

/-- The patched sites of the process: words outside the injected code. -/
structure PatchedSites : Prop where
  region : ∀ a, sites a → env.region a = .words
  apart : ∀ a, sites a → 136 ≤ (a - (env.rgp - 56)).toNat

/-- Application code, which includes hooks and handlers. -/
def App (a : Addr) : Prop := env.region a = .foreign ∨ sites a

/-- Where control may go from outside vpoline. -/
def Lands (a : Addr) : Prop :=
  App env sites a ∨ a = env.loc .syscallNoIntercept 0 ∨ a = env.hookRet

/-- The bytes of the injected code, of vpoline's variables and of the patched
    sites are as before. -/
def Kept (m m' : Mem) : Prop :=
  ∀ a, env.own a ∨ (∃ s, sites s ∧ (a - s).toNat < 4) → m' a = m a

/-- The instructions that leave vpoline by an address they are given: the
    final jump of the return sequence and the `ret` of
    `syscall_no_intercept`. -/
def Leaves (pc : Addr) : Prop :=
  env.region pc = .foreign ∨ pc = returnWord env 13 ∨ pc = env.loc .syscallNoIntercept 8

/-- What is assumed of code outside vpoline: it leaves `gp` alone, and has
    no access to what `syscall_hook` keeps in its frame. -/
structure ForeignStep (c c' : Conf K) : Prop where
  gp : c'.x gp = c.x gp
  activations : c'.activations = c.activations

/-- One step of a thread. Signals are delivered where `allowed` says. -/
inductive SigStep (allowed : Addr → Prop) : Thread K → Thread K → Prop
  | exec (c c' : Conf K) (contexts : List Context) :
      Exec env c c' → Kept env sites c.mem c'.mem →
      (env.region c.pc = .foreign → ForeignStep c c') →
      (Leaves env c.pc → Lands env sites c'.pc) →
      SigStep allowed ⟨c, contexts⟩ ⟨c', contexts⟩
  | deliver (c h : Conf K) (contexts : List Context) :
      allowed c.pc → App env sites h.pc → ForeignStep c h → Kept env sites c.mem h.mem →
      SigStep allowed ⟨c, contexts⟩ ⟨h, c.context :: contexts⟩
  | sigreturn (c : Conf K) (ctx : Context) (contexts : List Context) :
      SigStep allowed ⟨c, ctx :: contexts⟩ ⟨c.restore ctx, contexts⟩

/-- The return words behind a load of `gp`. -/
def borrowedWords : List Nat := [1, 2, 3, 6, 7, 8, 10, 11, 12, 13]

/-- The addresses at which `gp` holds the return address of a patched site. -/
def GpWindow (pc : Addr) : Prop :=
  (∃ i, i < 20 ∧ pc = env.rgp + BitVec.ofNat 64 (4 * i)) ∨
  (∃ i, i ≤ 3 ∧ pc = env.loc .asmSyscallHook i) ∨
  (∃ i, i ∈ borrowedWords ∧ pc = returnWord env i)

end Vpoline
