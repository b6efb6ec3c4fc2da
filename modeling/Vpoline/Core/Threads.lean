import Vpoline.Core.Signals
import Vpoline.Lib.Pool

/-!
# A Process With Many Threads

Threads that share memory and the kernel, each with registers, signal contexts
and a record of its own.

`clone` and `clone3` are system calls like any other, so a thread is born
where its parent makes one: behind the system call of the return sequence or
of `syscall_no_intercept`. It has the registers of its parent, but for the
result, the stack pointer and the thread pointer, which the kernel sets.
Application code may also make system calls of its own, with an `ecall` that
has not been replaced, and start a thread in application code.

What code outside vpoline adds to its record is restricted to such calls of
its own. `SigStep` leaves it open.

## Main definitions

* `OwnCalls`, `Recorded`: Code outside vpoline records its own system calls.
* `TracedStep`: A step of one thread.
* `Local`: What belongs to one thread.
* `Born`: How threads come into being.
* `ThreadStep`: A step of a process.
-/

namespace Vpoline

open RV64

variable {K : Type}

/-- What is recorded from `c` to `c'` are system calls of code outside
    vpoline. -/
def OwnCalls (env : Env K) (c c' : Conf K) : Prop :=
  ∃ es, c'.trace = c.trace ++ es ∧
    ∀ e ∈ es, ∃ core k, e = .ecall core k ∧ env.region core.pc = .foreign

/-- A step of a thread at which code outside vpoline, a handler included,
    records only its own system calls. -/
def Recorded (env : Env K) (t t' : Thread K) : Prop :=
  env.region t.conf.pc = .foreign ∨ t'.contexts ≠ t.contexts → OwnCalls env t.conf t'.conf

/-- A step of a thread in such a process. -/
def TracedStep (env : Env K) (sites allowed : Addr → Prop) (t t' : Thread K) : Prop :=
  SigStep env sites allowed t t' ∧ Recorded env t t'

/-- What belongs to one thread. -/
structure Local (K : Type) where
  current : Context
  contexts : List Context
  trace : List (Event K)

/-- A thread in a process with memory `s.1` and kernel state `s.2`. -/
def Local.thread (l : Local K) (s : Mem × K) : Thread K where
  conf :=
    { pc := l.current.pc
      x := l.current.x
      f := l.current.f
      mem := s.1
      activations := l.current.activations
      kst := s.2
      trace := l.trace }
  contexts := l.contexts

/-- One step of one thread. -/
def LocalStep (env : Env K) (sites allowed : Addr → Prop) (l : Local K) (s : Mem × K)
    (l' : Local K) (s' : Mem × K) : Prop :=
  TracedStep env sites allowed (l.thread s) (l'.thread s')

/-- The system calls of vpoline's code, each with the address behind it. -/
def IssuesAt (env : Env K) (pc next : Addr) : Prop :=
  (pc = returnWord env 4 ∧ next = returnWord env 5) ∨
  (pc = returnWord env 12 ∧ next = returnWord env 13) ∨
  (pc = env.loc .syscallNoIntercept 7 ∧ next = env.loc .syscallNoIntercept 8)

/-- A thread has no history: no pending handlers and no pending hooks. -/
structure Newborn (c : Local K) : Prop where
  activations : c.current.activations = []
  contexts : c.contexts = []
  trace : c.trace = []

/-- A thread that goes from `l` to `l'` can start the thread `c`. -/
inductive Born (env : Env K) (sites : Addr → Prop) (l l' c : Local K) : Prop
  -- Both threads return from a call that vpoline made.
  | clone : IssuesAt env l.current.pc l'.current.pc → c.current.pc = l'.current.pc →
      (∀ r, r ≠ a0 → r ≠ sp → r ≠ tp → c.current.x r = l'.current.x r) → Newborn c →
      Born env sites l l' c
  -- Code outside vpoline makes the call, by an `ecall` that is not patched.
  | app : env.region l.current.pc = .foreign → App env sites c.current.pc →
      c.current.x gp = l.current.x gp → Newborn c → Born env sites l l' c

/-- One step of a process. -/
def ThreadStep (env : Env K) (sites allowed : Addr → Prop) :
    Pool (Mem × K) (Local K) → Pool (Mem × K) (Local K) → Prop :=
  PoolStep (LocalStep env sites allowed) (Born env sites)

end Vpoline
