import Vpoline.Core.Layout
import Vpoline.Lib.Sweep

/-!
# Finding and Replacing `ecall`

The disassembly loop of `main.c`: `intercept_disasm_init`,
`intercept_disasm_next_instruction` and `disassemble_and_rewrite`.

The loop walks over a section from its first byte to its last. It asks
capstone for the instruction at the current address, overwrites it if it is
an `ecall`, and advances by its length. Where capstone finds no instruction
the loop advances by one byte. It stores into the buffer that it is decoding,
and the end of the section is kept as the address of the last byte.

What capstone answers is a parameter, and so are the results of the system
calls around the loop. `capstone` is the disassembler that knows a given set
of encodings.

The functions are written over a record of effects, since not every question
about them is about the same things. `Effects` says what memory is, what a call
leaves behind, whether a store goes through and how the process ends.
`memEffects` is about memory alone, and that of the initialisation, in
`Core.Startup`, also about calls and protections.

Pointers are natural numbers here: the sections in question end below `2 ^ 64`.

## Main definitions

* `Disassembler`: `cs_disasm_iter`, as a function of the bytes it may read.
* `RewriteCalls`: What the calls around the loop return.
* `LibcFn`: The functions that are called.
* `Recorder`, `Effects`: What the functions do besides computing.
* `interceptDisasmNextInstruction`: The instruction at an address.
* `Effects.rewriteLoop`: The loop.
* `Effects.disassembleAndRewrite`: The function around it.
* `rewriteLoop`, `disassembleAndRewrite`: Both, on memory alone.
* `capstone`: A disassembler that knows some encodings.
-/

namespace Vpoline

/-- The instruction identifiers that are told apart. -/
inductive InsnId
  /-- `RISCV_INS_ECALL`. -/
  | ecall
  | other
deriving DecidableEq, Repr

/-- The fields of a `cs_insn` that are read. -/
structure CsInsn where
  id : InsnId
  size : Nat
deriving DecidableEq, Repr

/-- `cs_disasm_iter` on the bytes from an address to the end of the section. -/
abbrev Disassembler := List Byte → Option CsInsn

/-- Page protection flags. -/
structure Prot where
  read : Bool
  write : Bool
  exec : Bool
deriving DecidableEq, Repr

/-- What the system and capstone return around the loop. -/
structure RewriteCalls where
  /-- The error text of `mprotect`, or `none` for success. -/
  mprotect : Addr → BitVec 64 → Prot → Option String
  /-- The handle of `cs_open`, or `none` for an error. -/
  csOpen : Option Disassembler
  csOptDetail : Bool
  csOptMem : Bool
  csMalloc : Bool

/-- The fields of `struct intercept_disasm_context` that are read. -/
structure InterceptDisasmContext where
  handle : Disassembler
  /-- The address of the last byte. -/
  last : Nat

/-- `struct intercept_disasm_result`. -/
structure InterceptDisasmResult where
  address : Nat
  isSyscall : Bool
  /-- Zero if there was no instruction. -/
  length : Nat
deriving DecidableEq, Repr

/-- `intercept_disasm_init`. -/
def interceptDisasmInit (calls : RewriteCalls) (last : Nat) :
    Except Stop InterceptDisasmContext :=
  match calls.csOpen with
  | none => .error (.exit "cs_open failed in intercept_disasm_init\n")
  | some handle =>
      if calls.csOptDetail = false then
        .error (.exit "cs_option failed in intercept_disasm_init\n")
      else if calls.csOptMem = false then
        .error (.exit "cs_option failed in intercept_disasm_init\n")
      else if calls.csMalloc = false then
        .error (.exit "cs_malloc failed in intercept_disasm_init\n")
      else .ok ⟨handle, last⟩

/-- The `size` bytes at `code`. -/
def bytesFrom (m : Mem) (code size : Nat) : List Byte :=
  (List.range size).map (fun k => m (BitVec.ofNat 64 (code + k)))

/-- `intercept_disasm_next_instruction`. -/
def interceptDisasmNextInstruction (context : InterceptDisasmContext) (m : Mem) (code : Nat) :
    Except Stop InterceptDisasmResult :=
  match context.handle (bytesFrom m code (context.last - code + 1)) with
  | none => .ok ⟨code, false, 0⟩
  | some insn =>
      if insn.size = 0 then
        .error (.exit "cs_disasm_iter failed in intercept_disasm_next_instruction\n")
      else .ok ⟨code, insn.id == .ecall, insn.size⟩

/-- The functions that the initialisation calls, in libc and in the libraries
    on top of it. -/
inductive LibcFn
  | printf | fprintf | snprintf | perror | strerror | write
  | readlink | getenv | fopen | fread | fgets | fclose
  | strrchr | strcmp | strlen | strstr | strtok | strncpy | strtol | memset
  | sysconf | sigaction | signal | raise | mmap | munmap | mprotect
  | csOpen | csOption | csMalloc | csDisasmIter | csFree | csClose
  | dlopen | dlerror | dlsym | hookInit | exit | abort
  | libcStartMain
deriving DecidableEq, Repr

/-- How a state of type `σ` keeps track of calls, and how a process ends. -/
structure Recorder (σ ε : Type) where
  call : List LibcFn → σ → σ
  /-- Calls that a release build does not make. -/
  debugCall : List LibcFn → σ → σ
  /-- The end of the process, after the calls that report why. -/
  halt : List LibcFn → Stop → σ → ε

/-- What else the rewriting does to a state. -/
structure Effects (σ ε : Type) extends Recorder σ ε where
  mem : σ → Mem
  /-- `cs_disasm_iter` has been called for an address. -/
  disasm : Nat → σ → σ
  /-- `jalr gp, gp, 0` is stored at an address. -/
  patch : Nat → σ → Except ε σ
  /-- `mprotect` has succeeded. -/
  protect : Addr → BitVec 64 → Prot → σ → σ

/-- Calls leave nothing behind. -/
def Recorder.silent (σ : Type) : Recorder σ Stop where
  call _ s := s
  debugCall _ s := s
  halt _ stop _ := stop

@[simp] theorem Recorder.silent_call {σ : Type} (fns : List LibcFn) (s : σ) :
    (Recorder.silent σ).call fns s = s := rfl

@[simp] theorem Recorder.silent_debugCall {σ : Type} (fns : List LibcFn) (s : σ) :
    (Recorder.silent σ).debugCall fns s = s := rfl

/-- The calls of `intercept_disasm_init`, up to the first that fails. -/
def disasmInitCalls (calls : RewriteCalls) : List LibcFn :=
  [.mmap, .csOpen] ++
    (if calls.csOpen.isNone then []
    else if calls.csOptDetail = false then [.csOption]
    else if calls.csOptMem = false then [.csOption, .csOption]
    else [.csOption, .csOption, .csMalloc])

section Rewriting

variable {σ ε : Type} (eff : Effects σ ε)

/-- The loop of `disassemble_and_rewrite`, from the address `code` on. -/
def Effects.rewriteLoop (context : InterceptDisasmContext) (code : Nat) (s : σ) : Except ε σ :=
  if code ≤ context.last then
    match interceptDisasmNextInstruction context (eff.mem s) code with
    | .error stop => .error (eff.halt [.fprintf, .exit] stop (eff.disasm code s))
    | .ok result =>
        -- Bytes that capstone does not recognise are skipped one by one.
        if _h : result.length = 0 then rewriteLoop context (code + 1) (eff.disasm code s)
        else if result.isSyscall then
          match eff.patch result.address (eff.disasm code s) with
          | .error e => .error e
          | .ok s => rewriteLoop context (code + result.length) s
        else rewriteLoop context (code + result.length) (eff.disasm code s)
  else .ok s
termination_by context.last + 1 - code

/-- `disassemble_and_rewrite`. -/
def Effects.disassembleAndRewrite (calls : RewriteCalls) (code : Addr) (codeSize : BitVec 64)
    (memProt : Prot) (s : σ) : Except ε σ :=
  let s := eff.call [.mprotect] (eff.debugCall [.write] s)
  match calls.mprotect code codeSize ⟨true, true, true⟩ with
  | some error =>
      .error (eff.halt [.strerror, .fprintf, .exit]
        (.exit ("mprotect failed in disassemble_and_rewrite (before patching): "
          ++ error ++ "\n")) s)
  | none =>
      -- The mapping keeps all three permissions until the loop is done.
      let s := eff.call (disasmInitCalls calls) (eff.protect code codeSize ⟨true, true, true⟩ s)
      match interceptDisasmInit calls (code.toNat + codeSize.toNat - 1) with
      | .error stop => .error (eff.halt [.fprintf, .exit] stop s)
      | .ok context =>
          match eff.rewriteLoop context code.toNat s with
          | .error e => .error e
          | .ok s =>
              let s := eff.call [.csFree, .csClose, .munmap, .mprotect] s
              match calls.mprotect code codeSize memProt with
              | some error =>
                  .error (eff.halt [.strerror, .fprintf, .exit]
                    (.exit ("mprotect failed in disassemble_and_rewrite (after patching): "
                      ++ error ++ "\n")) s)
              | none => .ok (eff.debugCall [.write] (eff.protect code codeSize memProt s))

end Rewriting

/-- Memory alone: calls leave nothing behind, and stores go through. -/
def memEffects : Effects Mem Stop :=
  { Recorder.silent Mem with
    mem := id
    disasm := fun _ m => m
    patch := fun address m => .ok (m.write (BitVec.ofNat 64 address) 4 patchedEcall)
    protect := fun _ _ _ m => m }

@[simp] theorem memEffects_call (fns : List LibcFn) (m : Mem) : memEffects.call fns m = m := rfl

@[simp] theorem memEffects_debugCall (fns : List LibcFn) (m : Mem) :
    memEffects.debugCall fns m = m := rfl

@[simp] theorem memEffects_protect (code : Addr) (codeSize : BitVec 64) (memProt : Prot) (m : Mem) :
    memEffects.protect code codeSize memProt m = m := rfl

/-- The loop of `disassemble_and_rewrite`, on memory alone. -/
def rewriteLoop (context : InterceptDisasmContext) (code : Nat) (m : Mem) : Except Stop Mem :=
  memEffects.rewriteLoop context code m

/-- `disassemble_and_rewrite`, on memory alone. -/
def disassembleAndRewrite (calls : RewriteCalls) (code : Addr) (codeSize : BitVec 64)
    (memProt : Prot) (m : Mem) : Except Stop Mem :=
  memEffects.disassembleAndRewrite calls code codeSize memProt m

/-- `ecall`, the word `0x00000073`. -/
def ecallEncoding : Encoding := .long 0x73 0x00 0x00 0x00 (by decide)

/-- `jalr gp, gp, 0`, the word `0x000181e7`. -/
def jalrEncoding : Encoding := .long 0xe7 0x81 0x01 0x00 (by decide)

/-- A disassembler that recognises the encodings in `known`: it reads the
    encoding at the start of its bytes and fails if there are too few of them
    or the encoding is not a known one. -/
def capstone (known : Encoding → Bool) : Disassembler := fun bs =>
  match Encoding.ofBytes bs with
  | none => none
  | some e =>
      if known e then some ⟨if e = ecallEncoding then .ecall else .other, e.size⟩ else none

end Vpoline
