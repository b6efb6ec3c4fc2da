import Vpoline.Core.Disasm
import Vpoline.Lib.Text
import Mathlib.Data.List.Infix

/-!
# Reading the Memory Map

`rewrite_code` with the text it reads, character by character: the lines that
`fgets` returns, the search for `libc.so.6`, the two tokens, the copy of the
first one that is cut at its dash, and the two numbers.

What happens to a mapping that is found is a parameter here. It is applied to
the arguments of `disassemble_and_rewrite`, and to a state of any type. The
calls into libc are left to a `Recorder`, and each place of the source that
makes some stands for one entry of it, a loop of `strlen` for one call.

`MapsEntry.line` is how the kernel prints a mapping.

## Main definitions

* `Recorder.rewriteLine`: The body of the loop.
* `Recorder.rewriteLines`: The loop.
* `Recorder.rewriteCode`: The function around it.
* `rewriteLine`, `rewriteLines`, `rewriteCode`: The same without the calls.
* `MapsEntry.line`: A line, as the kernel prints it.
* `Mapping`: A mapping that can be listed.
* `printMaps`: The whole file.
-/

namespace Vpoline

/-- What is searched for. -/
def libcName : List Char := ['l', 'i', 'b', 'c', '.', 's', 'o', '.', '6']

/-- `mem_prot` after the loop over the characters of the second field. -/
def memProtOf (c : List Char) : Prot :=
  c.foldl
    (fun memProt ch =>
      ⟨memProt.read || ch == 'r', memProt.write || ch == 'w', memProt.exec || ch == 'x'⟩)
    ⟨false, false, false⟩

/-- `addr` after the copy of the first field. -/
def addrBuffer (c : List Char) : List Char := strncpy 64 c ++ [nul]

/-- The index `k` where the loop over `addr` ends. -/
def dashIndex (addr : List Char) : Nat := (cString addr).findIdx (fun c => c = '-')

/-- `from` and `to`. Without a dash there is a NUL at `k` already. -/
def parseRange (addr : List Char) : Int × Int :=
  let k := dashIndex addr
  let addr := addr.set k nul
  (strtol 16 (cString addr), strtol 16 (cString (addr.drop (k + 1))))

section Loop

variable {σ ε : Type} (recorder : Recorder σ ε)
  (rewrite : Addr → BitVec 64 → Prot → σ → Except ε σ)

/-- The body of the loop of `rewrite_code`. The inner loop is left after its
    second token. -/
def Recorder.rewriteLine (buf : List Char) (s : σ) : Except ε σ :=
  let s := recorder.call [.strstr] (recorder.debugCall [.strlen, .write] s)
  match strstr libcName (cString buf) with
  | none => .ok s
  | some _ =>
      let s := recorder.call [.strtok] s
      match strtok ' ' (cString buf) with
      | none => .ok s
      | some (c, rest) =>
          let addr := addrBuffer c
          let s := recorder.call [.strncpy, .strtok] s
          match strtok ' ' rest with
          | none => .ok s
          | some (c, _) =>
              let memProt := memProtOf c
              let s := recorder.call [.strlen] s
              if memProt.exec then
                let range := parseRange addr
                let s := recorder.call [.strlen, .strtol] s
                -- The first page is taken for trampoline code.
                if range.1 = 0 then .ok s
                else
                  rewrite (BitVec.ofInt 64 range.1)
                    (BitVec.ofInt 64 range.2 - BitVec.ofInt 64 range.1) memProt
                    (recorder.call [.strtol] s)
              else .ok s

/-- The loop of `rewrite_code`. -/
def Recorder.rewriteLines (text : List Char) (s : σ) : Except ε σ :=
  let s := recorder.call [.fgets] s
  match _h : fgets 4096 text with
  | none => .ok s
  | some (buf, rest) =>
      match recorder.rewriteLine rewrite buf s with
      | .error e => .error e
      | .ok s => rewriteLines rest s
termination_by text.length
decreasing_by exact fgets_shorter (by decide) _h

/-- `rewrite_code`, with what `fopen` returns. -/
def Recorder.rewriteCode (maps : Except String (List Char)) (s : σ) : Except ε σ :=
  let s := recorder.call [.fopen] (recorder.debugCall [.write] s)
  match maps with
  | .error error =>
      .error (recorder.halt [.strerror, .fprintf, .exit]
        (.exit ("Failed to open /proc/self/maps: " ++ error ++ "\n")) s)
  | .ok text =>
      match recorder.rewriteLines rewrite text s with
      | .error e => .error e
      | .ok s => .ok (recorder.debugCall [.write] (recorder.call [.fclose] s))

end Loop

section Silent

variable {σ : Type} (rewrite : Addr → BitVec 64 → Prot → σ → Except Stop σ)

/-- The body of the loop of `rewrite_code`, without its calls. -/
def rewriteLine (buf : List Char) (s : σ) : Except Stop σ :=
  (Recorder.silent σ).rewriteLine rewrite buf s

/-- The loop of `rewrite_code`, without its calls. -/
def rewriteLines (text : List Char) (s : σ) : Except Stop σ :=
  (Recorder.silent σ).rewriteLines rewrite text s

/-- `rewrite_code`, without its calls. -/
def rewriteCode (maps : Except String (List Char)) (s : σ) : Except Stop σ :=
  (Recorder.silent σ).rewriteCode rewrite maps s

end Silent

/-- The lines that `fgets` returns. -/
def readLines (text : List Char) : List (List Char) :=
  match _h : fgets 4096 text with
  | none => []
  | some (buf, rest) => buf :: readLines rest
termination_by text.length
decreasing_by exact fgets_shorter (by decide) _h

/-- The arguments of `disassemble_and_rewrite`. -/
structure RewriteArgs where
  code : Addr
  codeSize : BitVec 64
  memProt : Prot
deriving DecidableEq

/-! ## The format of the file -/

/-- The fields of a line of `/proc/self/maps`. -/
structure MapsEntry where
  fromAddr : Nat
  toAddr : Nat
  read : Bool
  write : Bool
  exec : Bool
  shared : Bool
  offset : Nat
  major : Nat
  minor : Nat
  inode : Nat
  /-- The spaces that align the path. -/
  pad : Nat
  path : List Char

namespace MapsEntry

/-- `%08lx-%08lx`. -/
def range (e : MapsEntry) : List Char :=
  printNat 16 8 e.fromAddr ++ '-' :: printNat 16 8 e.toAddr

/-- `%c%c%c%c`. -/
def flags (e : MapsEntry) : List Char :=
  [if e.read then 'r' else '-', if e.write then 'w' else '-', if e.exec then 'x' else '-',
    if e.shared then 's' else 'p']

/-- `%08llx %02x:%02x %lu`, and the spaces before the path. -/
def details (e : MapsEntry) : List Char :=
  printNat 16 8 e.offset ++ ' ' :: (printNat 16 2 e.major ++ ':' :: (printNat 16 2 e.minor ++
    ' ' :: (printNat 10 1 e.inode ++ ' ' :: List.replicate e.pad ' ')))

/-- The line without its end. -/
def line (e : MapsEntry) : List Char :=
  e.range ++ ' ' :: (e.flags ++ ' ' :: (e.details ++ e.path))

end MapsEntry

/-- A mapping that the kernel can list, in a line that fits into the buffer. -/
structure Mapping extends MapsEntry where
  lt : fromAddr < toAddr
  fits : toAddr < 2 ^ 63
  newline_free : '\n' ∉ path
  /-- A path is a C string. -/
  nul_free : nul ∉ path
  short : toMapsEntry.line.length < 4095

namespace Mapping

/-- The executable mappings of libc, except at address zero. -/
def isRewritten (m : Mapping) : Bool :=
  decide (libcName <:+: m.path) && m.exec && decide (m.fromAddr ≠ 0)

/-- What a mapping is to be rewritten with: its first byte, its size and its
    own protection. -/
def rewriteArgs (m : Mapping) : RewriteArgs :=
  ⟨BitVec.ofNat 64 m.fromAddr, BitVec.ofNat 64 (m.toAddr - m.fromAddr),
    ⟨m.read, m.write, m.exec⟩⟩

end Mapping

/-- The contents of `/proc/self/maps`. -/
def printMaps (ms : List Mapping) : List Char := ms.flatMap (fun m => m.line ++ ['\n'])

end Vpoline
