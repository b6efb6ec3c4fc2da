import Vpoline.Core.Patcher
import Vpoline.Lib.Page

/-!
# Where the Injected Code Goes

The address computations of `utils.c`, and the range check of the fault
handler that has to agree with them.

The original global pointer sits somewhere in a data page. vpoline maps fresh
pages and moves `gp` to the same offset in them, so that the words of the
return sequence can be placed right below it and made execute-only. Accesses
that the program makes relative to `gp` then fault, and the handler sends
them back to the page they were meant for. Three computations are involved,
in `define_ret_sequence_info`, `allocate_ret_sequence_page` and
`segfault_handler`, and they share nothing but the fields of one record.

All of them are modelled on 64-bit words, wrap-around included. What `mmap`
and `sysconf` return is a parameter.

## Main definitions

* `ReturnSequenceInfo`: The record `rsi`.
* `Globals`: The global variables of the layout.
* `defineRetSequenceInfo`: The layout around the original `gp`.
* `allocateRetSequencePage`: The layout around the relocated one.
* `layout`: Both in the order of the initialisation.
* `outsideXom`: The end of a process that faults elsewhere.
* `backupAddr`: The address the fault handler redirects to.
-/

namespace Vpoline

/-- The structure `ReturnSequenceInfo` of `main.h`. -/
structure ReturnSequenceInfo where
  startAddr : Addr
  endAddr : Addr
  startAddrPage : Addr
  endAddrPage : Addr
  gpOffset : BitVec 64
  relocatedGp : Addr
  startOffset : BitVec 32
  protectionSize : BitVec 64
  retSequencePageAddr : Addr
deriving DecidableEq, Repr

/-- The global variables that the layout is computed from and written to. -/
structure Globals where
  virtualGlobalPointer : Addr
  relocatedGlobalPointer : Addr
  pageSize : BitVec 64
  rsi : ReturnSequenceInfo
deriving DecidableEq, Repr

/-- Globals before the constructor has run: all zero. -/
def Globals.zero : Globals :=
  ⟨0, 0, 0, ⟨0, 0, 0, 0, 0, 0, 0, 0, 0⟩⟩

/-- The ways the library ends the process instead of returning. -/
inductive Stop
  /-- A message on standard error and `exit(1)`. -/
  | exit (message : String)
  /-- A message on standard error and `__builtin_trap()`. -/
  | trap (message : String)
  /-- The signal is raised again under its default action. -/
  | raise
  /-- A failed assertion. -/
  | abort (assertion : String)
deriving DecidableEq, Repr

/-- A number as `%x` prints it. -/
def hex (n : Nat) : String := String.ofList (Nat.toDigits 16 n)

/-- How the fault handler ends a process that faults outside the execute-only
    range. -/
def outsideXom (debug : Bool) (a : Addr) : Stop :=
  if debug then .trap ("Segfault at addr 0x" ++ (hex a.toNat).toUpper ++ " outside XOM region\n")
  else .raise

/-- `define_ret_sequence_info`, with `sysconf(_SC_PAGESIZE)` as a parameter. -/
def defineRetSequenceInfo (sysconf : BitVec 64) (g : Globals) : Globals :=
  let startAddr := g.virtualGlobalPointer - BitVec.ofNat 64 retSequenceSize
  let endAddr := g.virtualGlobalPointer - 1
  let startAddrPage := alignDown startAddr sysconf
  let endAddrPage := alignDown endAddr sysconf
  { g with
    pageSize := sysconf
    rsi := { g.rsi with
      gpOffset := g.virtualGlobalPointer % sysconf
      startAddr := startAddr
      endAddr := endAddr
      startAddrPage := startAddrPage
      endAddrPage := endAddrPage
      protectionSize := endAddrPage - startAddrPage + sysconf } }

/-- `allocate_ret_sequence_page`; `mmap` is `none` if the mapping failed. -/
def allocateRetSequencePage (mmap : Option Addr) (g : Globals) : Except Stop Globals :=
  match mmap with
  | none => .error (.exit "mmap failed in allocate_ret_sequence_page\n")
  | some page =>
      let relocatedGp := page + g.rsi.gpOffset
      let startAddr := relocatedGp - BitVec.ofNat 64 retSequenceSize
      -- The pages and the size of the range remain those around the original `gp`.
      .ok { g with
        relocatedGlobalPointer := relocatedGp
        rsi := { g.rsi with
          retSequencePageAddr := page
          relocatedGp := relocatedGp
          startAddr := startAddr
          endAddr := relocatedGp - 1
          startOffset := (startAddr % g.pageSize).setWidth 32 } }

/-- The layout for an original global pointer `gp`, as the constructor
    computes it. -/
def layout (gp : Addr) (sysconf : BitVec 64) (mmap : Option Addr) : Except Stop Globals :=
  allocateRetSequencePage mmap
    (defineRetSequenceInfo sysconf { Globals.zero with virtualGlobalPointer := gp })

/-- The boundaries of the execute-only range, both included. -/
def xomStart (rsi : ReturnSequenceInfo) : Addr := rsi.retSequencePageAddr

def xomEnd (rsi : ReturnSequenceInfo) : Addr := xomStart rsi + rsi.protectionSize - 1

/-- Where the fault handler redirects an access to `faultAddr`, if it accepts
    the fault. -/
def backupAddr (rsi : ReturnSequenceInfo) (faultAddr : Addr) : Option Addr :=
  if faultAddr < xomStart rsi ∨ faultAddr > xomEnd rsi then none
  else some (rsi.startAddrPage + (faultAddr - xomStart rsi))

end Vpoline
