import Vpoline.Core.Maps

/-!
# Loading vpoline into a Process

The constructor `__vpoline_init` and the interposed `__libc_start_main`, with
every call that they make into libc and every store.

The startup code of the executable sets `gp` before the constructors run and
again before it calls `__libc_start_main`. In between, the constructor maps
the page for the injected code, writes and protects it, moves `gp` there,
rewrites libc and loads the hook library. From the first `ecall` that is
replaced on, a libc function that makes a system call jumps to whatever `gp`
points to.

`InitState` therefore records each call together with the state of the process
at that moment. Calls that follow one another in the same state are recorded
once for each place in the source, not once for each iteration. What the system
returns is a parameter.

Stores are checked against the protection of each byte. The trampoline and the
return sequence go around the relocated `gp`, wherever in its page that is, so
they may reach beyond the mapping that was made for them. The page is mapped
readable and writable, filled, and then made executable and nothing else. The
code of libc is made writable while it is rewritten, one mapping at a time,
and its protection is then set to what `/proc/self/maps` said.

In a DEBUG build the constructor first compares the name of the executable
with the one it was meant for, and returns if they differ.

## Main definitions

* `Proc`: The state of the process that the calls and stores depend on.
* `StartupInputs`: Everything that the system and the build decide.
* `InitState`: A process, and the calls it has made.
* `NameCheck.passes`: The comparison of the executable's name.
* `InitState.store`: A store that is checked.
* `InitState.effects`: What the rewriting of libc does to the process.
* `InitState.rewriteCode`: The rewriting of libc.
* `InitState.vpolineInit`: The constructor.
* `InitState.libcStartMain`: The interposed `__libc_start_main`.
* `startup`: Both, with the startup code around them.
* `Ready`: The injected code is in place and executable.
-/

namespace Vpoline

/-- The process, as far as the calls into libc depend on it. -/
structure Proc where
  gp : Addr
  globals : Globals
  mem : Mem
  /-- What each byte may be used for. -/
  prot : Addr → Prot
  /-- The addresses of the `ecall`s that have been replaced. -/
  patched : List Addr

/-- What the name check of a DEBUG build reads. -/
structure NameCheck where
  /-- The target of `/proc/self/exe`, or `none` for an error. -/
  readlink : Option (List Char)
  /-- The environment variable `VPOLINE_TARGET`. -/
  vpolineTarget : Option (List Char)
  /-- The contents of `/proc/self/cmdline`, or `none` if it cannot be opened. -/
  cmdline : Option (List Char)

/-- How loading the hook library goes. -/
inductive HookLib
  /-- `LIBVPHOOK` is not set. -/
  | unset
  | dlopenFails (error : String)
  | dlsymFails (error : String)
  /-- What `__hook_init` returns. -/
  | loaded (initState : Int)

/-- Everything that the system and the build decide. -/
structure StartupInputs where
  /-- The name check, or `none` in a release build. -/
  nameCheck : Option NameCheck
  /-- Assertions are compiled out. -/
  ndebug : Bool
  /-- The global pointer that the startup code sets. -/
  gp : Addr
  mem : Mem
  prot : Addr → Prot
  /-- The address of `asm_syscall_hook`. -/
  dst : Addr
  sysconf : BitVec 64
  /-- `sigaction` succeeds. -/
  sigaction : Bool
  mmap : Option Addr
  /-- `mprotect` succeeds in `setup_return`. -/
  mprotectReturn : Bool
  /-- The text of `/proc/self/maps`, or why it cannot be opened. -/
  maps : Except String (List Char)
  /-- What the calls return that rewrite the mapping at an address. -/
  calls : Addr → RewriteCalls
  hook : HookLib

/-- DEBUG is defined. -/
def StartupInputs.debug (i : StartupInputs) : Bool := i.nameCheck.isSome

/-- A process, and the calls it has made so far. -/
structure InitState where
  proc : Proc
  calls : List (LibcFn × Proc)

/-- A process that has ended. -/
structure Halted where
  stop : Stop
  state : InitState

/-! ## Protections -/

/-- The bytes that `mprotect` applies to: all pages with a byte of the range. -/
def InitState.protectedSize (pageSize : BitVec 64) (len : Nat) : Nat :=
  (len + pageSize.toNat - 1) / pageSize.toNat * pageSize.toNat

/-- `mprotect`. -/
def Proc.protect (pageSize : BitVec 64) (addr : Addr) (len : Nat) (prot : Prot) (p : Proc) : Proc :=
  { p with
    prot := fun a =>
      if (a - addr).toNat < InitState.protectedSize pageSize len then prot else p.prot a }

/-- The first byte of the word at `a` that may not be written. -/
def Proc.unwritable (p : Proc) (a : Addr) : Option Addr :=
  ((List.range 4).map (fun k => a + BitVec.ofNat 64 k)).find? (fun b => !(p.prot b).write)

/-- The bytes of the fresh mapping. -/
def mappedByte (g : Globals) (a : Addr) : Bool :=
  (a - g.rsi.retSequencePageAddr).toNat < g.rsi.protectionSize.toNat

/-- The bytes that `setup_return` makes executable. -/
def protectedByte (g : Globals) (a : Addr) : Bool :=
  (a - g.rsi.retSequencePageAddr).toNat <
    InitState.protectedSize g.pageSize (BitVec.ofNat 32 retSequenceSize + g.rsi.startOffset).toNat

/-! ## The name of the executable -/

/-- `PATH_MAX`, the size of both buffers. -/
def pathMax : Nat := 4096

/-- What follows the last `/`, by `strrchr`. -/
def baseName (s : List Char) : List Char := (s.reverse.takeWhile (fun c => c ≠ '/')).reverse

namespace NameCheck

/-- `path`, without the NUL at its end: `readlink` cuts off what does not fit. -/
def path (c : NameCheck) : Option (List Char) := c.readlink.map (List.take (pathMax - 1))

/-- `expected_buf` up to the `r` characters that `fread` returns. -/
def expectedBuf (c : NameCheck) : Option (List Char) := c.cmdline.map (List.take (pathMax - 1))

/-- `expected`: the variable, else `argv[0]`, else the default. -/
def expected (c : NameCheck) : List Char :=
  match c.vpolineTarget with
  | some target => cString target
  | none =>
      match c.expectedBuf with
      | none => "dummy_exec".toList
      | some buf =>
          if buf.length > 0 then baseName (cString buf) else "dummy_exec".toList

/-- The constructor goes on after the check. -/
def passes (c : NameCheck) : Bool :=
  match c.path with
  | none => false
  | some path =>
      if path.length = 0 then false else baseName (cString path) == c.expected

/-- The calls made by the check. -/
def calls (c : NameCheck) : List LibcFn :=
  match c.path with
  | none => [.readlink]
  | some path =>
      if path.length = 0 then [.readlink]
      else
        [.readlink, .strrchr, .getenv] ++
          (match c.vpolineTarget, c.expectedBuf with
            | some _, _ => []
            | none, none => [.fopen]
            | none, some buf =>
                [.fopen, .fread, .fclose] ++ (if buf.length > 0 then [.strrchr] else [])) ++
          [.strcmp]

end NameCheck

namespace InitState

/-- Calls `fns` one after the other. -/
def call (fns : List LibcFn) (s : InitState) : InitState :=
  { s with calls := s.calls ++ fns.map (fun fn => (fn, s.proc)) }

/-- Calls that a release build does not make. -/
def debugCall (i : StartupInputs) (fns : List LibcFn) (s : InitState) : InitState :=
  if i.debug then s.call fns else s

/-- Ends the process, after the calls that report why. -/
def halt {α : Type} (fns : List LibcFn) (stop : Stop) (s : InitState) : Except Halted α :=
  .error ⟨stop, s.call fns⟩

/-- `fprintf(stderr, …)` and `exit`. -/
def fail {α : Type} (message : String) (s : InitState) : Except Halted α :=
  s.halt [.fprintf, .exit] (.exit message)

/-- Changes the process without calling anything. -/
def modify (f : Proc → Proc) (s : InitState) : InitState := { s with proc := f s.proc }

/-- What the fault handler calls on a fault that it does not redirect. -/
def faultCalls (i : StartupInputs) : List LibcFn :=
  if i.debug then [.snprintf, .strlen, .snprintf, .strlen] else [.signal, .raise]

/-- A store of a word. `SIGSEGV` has its handler by then, which redirects faults
    in the fresh mapping and ends the process at any other. The fresh mapping
    may be written. -/
def store (i : StartupInputs) (a : Addr) (w : BitVec 32) (s : InitState) :
    Except Halted InitState :=
  match s.proc.unwritable a with
  | some b => s.halt (faultCalls i) (outsideXom i.debug b)
  | none => .ok (s.modify (fun p => { p with mem := p.mem.write a 4 w }))

/-- Stores of words, one after the other. -/
def storeWords (i : StartupInputs) (a : Addr) :
    List (BitVec 32) → InitState → Except Halted InitState
  | [], s => .ok s
  | w :: ws, s => do
      let s ← s.store i a w
      s.storeWords i (a + 4) ws

/-! ## The injected code -/

/-- `define_ret_sequence_info`. -/
def defineRetSequenceInfo (i : StartupInputs) (s : InitState) : InitState :=
  ((s.call [.sysconf]).modify
    (fun p => { p with globals := Vpoline.defineRetSequenceInfo i.sysconf p.globals })).debugCall i
      [.snprintf, .strlen, .write]

/-- `init_trap_handler`. -/
def initTrapHandler (i : StartupInputs) (s : InitState) : Except Halted InitState :=
  let s := s.call [.memset, .sigaction]
  if i.sigaction then .ok s
  else s.halt [.perror, .exit] (.exit "Failed to register SIGSEGV handler")

/-- `allocate_ret_sequence_page`. The fresh pages may be read and written. -/
def allocateRetSequencePage (i : StartupInputs) (s : InitState) : Except Halted InitState :=
  let s := s.call [.mmap]
  match Vpoline.allocateRetSequencePage i.mmap s.proc.globals with
  | .error stop => s.halt [.fprintf, .exit] stop
  | .ok g =>
      .ok ((s.debugCall i [.snprintf, .strlen, .write, .printf]).modify
        (fun p =>
          { p with
            globals := g
            prot := fun a => if mappedByte g a then ⟨true, true, false⟩ else p.prot a }))

/-- `setup_shadow_page_trampoline`. -/
def setupShadowPageTrampoline (i : StartupInputs) (s : InitState) : Except Halted InitState :=
  (s.debugCall i [.printf]).storeWords i s.proc.globals.rsi.relocatedGp
    (Vpoline.setupShadowPageTrampoline i.dst)

/-- `setup_return`. -/
def setupReturn (i : StartupInputs) (s : InitState) : Except Halted InitState :=
  let rsi := s.proc.globals.rsi
  let pageSize := s.proc.globals.pageSize
  -- The `assert`, in builds that have it.
  if i.ndebug = false ∧ rsi.retSequencePageAddr % pageSize ≠ 0 then
    s.halt [.abort] (.abort "!((uintptr_t)rsi.ret_sequence_page_addr % page_size)")
  else do
    let s ← (s.debugCall i [.printf]).storeWords i rsi.startAddr Vpoline.setupReturn
    let s := (s.debugCall i [.printf]).call [.mprotect]
    if i.mprotectReturn then
      let len := (BitVec.ofNat 32 retSequenceSize + rsi.startOffset).toNat
      -- Execute-only from here on, and the trampoline with it if it is in the same page.
      .ok (s.modify (Proc.protect pageSize rsi.retSequencePageAddr len ⟨false, false, true⟩))
    else s.fail "mprotect failed in setup_return\n"

/-! ## Rewriting libc -/

/-- The store that replaces an `ecall`. -/
def patch (i : StartupInputs) (address : Nat) (s : InitState) : Except Halted InitState := do
  let s ← s.store i (BitVec.ofNat 64 address) patchedEcall
  .ok (s.modify (fun p => { p with patched := p.patched ++ [BitVec.ofNat 64 address] }))

/-- Calls are recorded. -/
def recorder (i : StartupInputs) : Recorder InitState Halted where
  call fns s := s.call fns
  debugCall fns s := s.debugCall i fns
  halt fns stop s := ⟨stop, s.call fns⟩

/-- Stores are checked, and `mprotect` has its effect. -/
def effects (i : StartupInputs) : Effects InitState Halted :=
  { recorder i with
    mem := fun s => s.proc.mem
    disasm := fun _ s => s.call [.csDisasmIter]
    patch := fun address s => s.patch i address
    protect := fun addr len prot s => s.modify (Proc.protect i.sysconf addr len.toNat prot) }

/-- `disassemble_and_rewrite`. -/
def disassembleAndRewrite (i : StartupInputs) (code : Addr) (codeSize : BitVec 64)
    (memProt : Prot) (s : InitState) : Except Halted InitState :=
  (effects i).disassembleAndRewrite (i.calls code) code codeSize memProt s

/-- `rewrite_code`. -/
def rewriteCode (i : StartupInputs) (s : InitState) : Except Halted InitState :=
  (recorder i).rewriteCode (disassembleAndRewrite i) i.maps s

/-! ## The constructor and the entry to libc -/

/-- `load_hook_lib`. The variable `hook_fn` is not part of the state. -/
def loadHookLib (i : StartupInputs) (s : InitState) : Except Halted InitState :=
  let s := s.call [.getenv]
  match i.hook with
  -- A warning, and `hook_fn` stays null.
  | .unset => .ok (s.call [.fprintf])
  | .dlopenFails error =>
      (s.call [.dlopen, .dlerror, .fprintf]).fail ("dlopen failed: " ++ error ++ "\n\n"
        ++ "NOTE: this may occur when the compilation of your hook function library misses some "
        ++ "specifications in LDFLAGS. or if you are using a C++ compiler, dlmopen may fail to "
        ++ "find a symbol, and adding 'extern \"C\"' to the definition may resolve the issue.\n")
  | .dlsymFails error =>
      (s.call [.dlopen, .dlsym, .dlerror]).fail ("dlsym failed: " ++ error ++ "\n\n")
  | .loaded initState =>
      let s := s.call [.dlopen, .dlsym, .hookInit]
      if initState = 0 then .ok s
      else
        s.fail ("Error: hook_init failed initialization: return value = "
          ++ toString initState)

/-- `mv gp, rsi.relocated_gp`. -/
def moveGp (s : InitState) : InitState :=
  s.modify (fun p => { p with gp := p.globals.rsi.relocatedGp })

/-- The part of `__vpoline_init` that maps, fills and protects the page for
    the injected code, and moves `gp` there. -/
def setUp (i : StartupInputs) (s : InitState) : Except Halted InitState := do
  let s ← (s.defineRetSequenceInfo i).initTrapHandler i
  let s ← s.allocateRetSequencePage i
  let s ← (s.debugCall i [.printf]).setupShadowPageTrampoline i
  let s ← (s.debugCall i [.printf]).setupReturn i
  .ok s.moveGp

/-- The rest of `__vpoline_init`. -/
def activate (i : StartupInputs) (s : InitState) : Except Halted InitState := do
  let s ← (s.debugCall i [.printf]).rewriteCode i
  (s.debugCall i [.printf]).loadHookLib i

/-- `__vpoline_init`, and whether it skipped the initialisation. -/
def vpolineInit (i : StartupInputs) (s : InitState) : Except Halted (InitState × Bool) :=
  let s := (s.modify (fun p =>
    { p with globals := { p.globals with virtualGlobalPointer := p.gp } })).debugCall i [.printf]
  match i.nameCheck with
  | none => do
      let s ← s.setUp i
      let s ← s.activate i
      .ok (s, false)
  | some check =>
      let s := s.call check.calls
      if check.passes then do
        let s ← s.setUp i
        let s ← s.activate i
        .ok (s, false)
      else .ok (s, true)

/-- vpoline's `__libc_start_main`, up to the entry of the true one. -/
def libcStartMain (s : InitState) : InitState :=
  (s.call [.dlsym]).moveGp.call [.libcStartMain]

end InitState

/-- How the start of a process went. -/
structure StartupResult where
  state : InitState
  /-- The constructor returned after the name check. -/
  skipped : Bool
  /-- Why the process ended in the constructor, if it did. -/
  stopped : Option Stop

/-- The process before the constructor: the startup code has set `gp`. -/
def StartupInputs.initial (i : StartupInputs) : InitState :=
  ⟨⟨i.gp, Globals.zero, i.mem, i.prot, []⟩, []⟩

/-- The start of a process. The startup code sets `gp` once more between the
    constructor and `__libc_start_main`. -/
def startup (i : StartupInputs) : StartupResult :=
  match i.initial.vpolineInit i with
  | .error halted => ⟨halted.state, false, some halted.stop⟩
  | .ok (s, skipped) =>
      ⟨(s.modify (fun p => { p with gp := i.gp })).libcStartMain, skipped, none⟩

/-- The trampoline and the return sequence are in place and executable. -/
structure Ready (dst : Addr) (p : Proc) : Prop where
  trampoline : WordsAt p.mem p.globals.rsi.relocatedGp (setupShadowPageTrampoline dst)
  returnSequence : WordsAt p.mem (p.globals.rsi.relocatedGp - 56) setupReturn
  executable : ∀ a, (a - (p.globals.rsi.relocatedGp - 56)).toNat < 136 → (p.prot a).exec = true

/-- `gp` is right at every call into libc. -/
structure Consistent (i : StartupInputs) : Prop where
  /-- Once an `ecall` is replaced, `gp` points to working code. -/
  patched : ∀ c ∈ (startup i).state.calls, c.2.patched ≠ [] →
    c.2.gp = c.2.globals.rsi.relocatedGp ∧ Ready i.dst c.2
  /-- If the initialisation is skipped, `gp` stays what it was. -/
  skipped : (startup i).skipped = true → ∀ c ∈ (startup i).state.calls, c.2.gp = i.gp

end Vpoline
