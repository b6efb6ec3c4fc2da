import Vpoline.Theory.Agreement
import Vpoline.Theory.Clone
import Vpoline.Theory.Emulation
import Vpoline.Theory.Extent
import Vpoline.Theory.Faults
import Vpoline.Theory.Image
import Vpoline.Theory.InPlace
import Vpoline.Theory.Launch
import Vpoline.Theory.Libc
import Vpoline.Theory.Maps
import Vpoline.Theory.Mediation
import Vpoline.Theory.Overhead
import Vpoline.Theory.Process
import Vpoline.Theory.Protect
import Vpoline.Theory.Relocation
import Vpoline.Theory.Relocated
import Vpoline.Theory.Rewrite
import Vpoline.Theory.Signals
import Vpoline.Theory.Sigreturn
import Vpoline.Theory.Startup
import Vpoline.Theory.Threads
