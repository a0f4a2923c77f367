import HackersOs.L3Net.Sockets
import HackersOs.L5User.Syscalls

/-!
# `LinuxSyscall::dispatch` (`compat/linux_syscalls.cpp`, `compat/net_syscalls.cpp`)

The system calls over the process and memory state, `fd_table` and the socket
table. `fd_table` has 256 entries, and `openat` takes the first free one from 3
on; the descriptor of a socket is 100 plus its index. Neither table looks at
the other, and `sys_close` only clears an entry of `fd_table`: no system call
reaches `Socket::close`.

What a call reads through a user pointer, and what the network and the keyboard
do during it, is its `CallEnv`. What it writes to user memory is left out.
-/
namespace HackersOs.L5
open HackersOs.Core L3 L3.Socket

inductive FdType where
  | none
  | console
  | file
  | socket
  deriving DecidableEq, Repr

structure SysState where
  kernel : Kernel
  fdTable : Fin 256 → FdType
  net : Sockets
  tidAddress : Nat

/-- The outside of a call. -/
structure CallEnv where
  /-- the string a path argument points to, up to its NUL -/
  path : List UInt8
  /-- the bytes a buffer argument points to -/
  buf : Nat → UInt8
  /-- the lengths in the array of `writev` -/
  iovLens : List Nat
  /-- the address an argument points to, and the length `addrlen` points to -/
  addr : SockAddr
  addrlen : Nat
  /-- what is typed -/
  typed : Nat → UInt8
  /-- `Net::get_ip()` -/
  ip : UInt32
  run : Tcp.IpRun
  polls : List Tcp.Polled
  send : SendEnv
  recv : RecvEnv
  /-- `Scheduler::yield` -/
  yield : Kernel → Kernel

def linuxEnoent : Int := -2
def linuxEio : Int := -5
def linuxEnosys : Int := -38

/-- `"/dev/null"` -/
def devNull : List UInt8 := [0x2F, 0x64, 0x65, 0x76, 0x2F, 0x6E, 0x75, 0x6C, 0x6C]

/-! ## The calls on `fd_table` -/

/-- mirrors src/compat/linux_syscalls.cpp:155-169 -/
def SysState.sysWrite (s : SysState) (fd count : Nat) : Int :=
  if fd ≤ 2 then toI64 count
  else if h : fd < 256 then
    if s.fdTable ⟨fd, h⟩ = .none then linuxEnoent else linuxEio
  else linuxEnoent

/-- The loop of `sys_read`: `i` bytes are read, `n` to go. -/
def readLine (typed : Nat → UInt8) (i : Nat) : Nat → Nat
  | 0 => i
  | n + 1 => if typed i = 0x0D ∨ typed i = 0x0A then i + 1 else readLine typed (i + 1) n

/-- mirrors src/compat/linux_syscalls.cpp:171-185 -/
def sysRead (env : CallEnv) (fd count : Nat) : Int :=
  if fd = 0 then toI64 (readLine env.typed 0 count) else linuxEnoent

/-- mirrors src/compat/linux_syscalls.cpp:187-197 -/
def SysState.sysWritev (s : SysState) (fd : Nat) (total : Int) : List Nat → Int
  | [] => total
  | len :: lens =>
    let ret := s.sysWrite fd len
    if ret < 0 then ret else s.sysWritev fd (total + ret) lens

/-- `for (i = 3; i < MAX_FDS; i++) if (fd_table[i].type == FD_NONE)` -/
def SysState.freeFd (s : SysState) : Option (Fin 256) :=
  (List.finRange 256).find? fun i => decide (3 ≤ i.val) && decide (s.fdTable i = .none)

def SysState.setFd (s : SysState) (i : Fin 256) (t : FdType) : SysState :=
  { s with fdTable := Function.update s.fdTable i t }

/-- mirrors src/compat/linux_syscalls.cpp:199-213 -/
def SysState.sysOpenat (s : SysState) (path : List UInt8) : SysState × Int :=
  if path = devNull then
    match s.freeFd with
    | some i => (s.setFd i .console, i.val)
    | none => (s, linuxEnoent)
  else (s, linuxEnoent)

/-- mirrors src/compat/linux_syscalls.cpp:215-222 -/
def SysState.sysClose (s : SysState) (fd : Nat) : SysState × Int :=
  if fd < 3 then (s, 0)
  else if h : fd < 256 then (s.setFd ⟨fd, h⟩ .none, 0)
  else (s, linuxEnoent)

/-- mirrors src/compat/linux_syscalls.cpp:224-234 -/
def sysFstat (fd : Nat) : Int := if fd ≤ 2 then 0 else linuxEnoent

/-! ## The socket calls -/

/-- `static_cast<u32>` and `static_cast<i32>` -/
def toU32 (v : Nat) : Nat := v % 2 ^ 32

def toI32 (v : Nat) : Int :=
  if v % 2 ^ 32 < 2 ^ 31 then (v % 2 ^ 32 : Nat) else (v % 2 ^ 32 : Nat) - 2 ^ 32

/-- A call that leaves the socket table in the first part of its result. -/
def SysState.netCall (s : SysState) (r : Sockets × Int) : SysState × Int :=
  ({ s with net := r.1 }, r.2)

/-- mirrors src/compat/net_syscalls.cpp:6-10 -/
def SysState.sysSocket (s : SysState) (domain type : Nat) : SysState × Int :=
  s.netCall (create s.net (toU32 domain) (type &&& 0xFF))

/-- mirrors src/compat/net_syscalls.cpp:12-16 -/
def SysState.sysBind (s : SysState) (env : CallEnv) (fd addrlen : Nat) : SysState × Int :=
  s.netCall (bind s.net (toI32 fd) env.addr (toU32 addrlen))

/-- mirrors src/compat/net_syscalls.cpp:18-20 -/
def SysState.sysListen (s : SysState) (fd : Nat) : SysState × Int :=
  s.netCall (listen s.net (toI32 fd))

/-- mirrors src/compat/net_syscalls.cpp:22-26 -/
def SysState.sysAccept (s : SysState) (env : CallEnv) (fd : Nat) : SysState × Int :=
  s.netCall (accept s.net (toI32 fd) env.polls)

/-- mirrors src/compat/net_syscalls.cpp:28-32 -/
def SysState.sysConnect (s : SysState) (env : CallEnv) (fd addrlen : Nat) : SysState × Int :=
  s.netCall (connect s.net (toI32 fd) env.addr (toU32 addrlen) env.run env.polls)

/-- mirrors src/compat/net_syscalls.cpp:34-41 -/
def SysState.sysSendto (s : SysState) (env : CallEnv) (fd len addr addrlen : Nat) : SysState × Int :=
  s.netCall (sendto s.net (toI32 fd) ((List.range (toU32 len)).map env.buf)
    (if addr = 0 then none else some (env.addr, toU32 addrlen)) env.send)

/-- mirrors src/compat/net_syscalls.cpp:43-50 -/
def SysState.sysRecvfrom (s : SysState) (env : CallEnv) (fd len : Nat) : SysState × Int :=
  let r := recvfrom s.net (toI32 fd) (toU32 len) env.recv
  ({ s with net := r.1 }, match r.2 with | .ok data => data.length | .error e => e)

/-- What `getsockname` and `getpeername` return. -/
def nameResult : Except Int SockAddr → Int
  | .ok _ => 0
  | .error e => e

/-- `*addrlen` for two pointers. -/
def CallEnv.addrlenAt (env : CallEnv) (addr addrlen : Nat) : Option Nat :=
  if addr = 0 ∨ addrlen = 0 then none else some env.addrlen

/-! ## The dispatcher -/

/-- The calls that `dispatch` knows. -/
inductive Sys where
  | brk | mmap | munmap | mprotect | madvise
  | read | write | writev | openat | close | fstat | fstatat | ioctl | faccessat | readlinkat
  | exit | exitGroup | getpid | getppid | gettid | getuid | geteuid | getgid | getegid
  | setTidAddress | clone | schedYield | kill | tkill
  | clockGettime
  | rtSigaction | rtSigprocmask | rtSigreturn | sigaltstack
  | uname | getrandom | futex | rseq
  | socket | bind | listen | accept | connect | sendto | recvfrom | setsockopt | getsockopt
  | getsockname | getpeername
  deriving DecidableEq, Repr

/-- mirrors src/compat/linux_syscalls.h:8-58 -/
def Sys.ofNumber : Nat → Option Sys
  | 29 => some .ioctl
  | 48 => some .faccessat
  | 56 => some .openat
  | 57 => some .close
  | 63 => some .read
  | 64 => some .write
  | 66 => some .writev
  | 78 => some .readlinkat
  | 79 => some .fstatat
  | 80 => some .fstat
  | 93 => some .exit
  | 94 => some .exitGroup
  | 96 => some .setTidAddress
  | 98 => some .futex
  | 113 => some .clockGettime
  | 124 => some .schedYield
  | 129 => some .kill
  | 130 => some .tkill
  | 132 => some .sigaltstack
  | 134 => some .rtSigaction
  | 135 => some .rtSigprocmask
  | 139 => some .rtSigreturn
  | 160 => some .uname
  | 172 => some .getpid
  | 173 => some .getppid
  | 174 => some .getuid
  | 175 => some .geteuid
  | 176 => some .getgid
  | 177 => some .getegid
  | 178 => some .gettid
  | 198 => some .socket
  | 200 => some .bind
  | 201 => some .listen
  | 202 => some .accept
  | 203 => some .connect
  | 204 => some .getsockname
  | 205 => some .getpeername
  | 206 => some .sendto
  | 207 => some .recvfrom
  | 208 => some .setsockopt
  | 209 => some .getsockopt
  | 214 => some .brk
  | 215 => some .munmap
  | 220 => some .clone
  | 222 => some .mmap
  | 226 => some .mprotect
  | 233 => some .madvise
  | 278 => some .getrandom
  | 293 => some .rseq
  | _ => none

/-- A system call: the number in x8, the registers x0 to x5 and its outside. -/
structure SysCall where
  nr : Nat
  a0 : Nat
  a1 : Nat
  a2 : Nat
  a3 : Nat
  a4 : Nat
  a5 : Nat
  env : CallEnv

/-- mirrors src/compat/linux_syscalls.cpp:279-282 -/
def Kernel.sysGetpid (k : Kernel) : Int :=
  match k.current with
  | none => 1
  | some i => (k.procs i).pid

/-- A call on the process or the memory. -/
def SysState.kernelCall (s : SysState) (r : Kernel × Int) : SysState × Int :=
  ({ s with kernel := r.1 }, r.2)

/-- mirrors src/compat/linux_syscalls.cpp:434-503 -/
def SysState.dispatch (s : SysState) (c : SysCall) : SysState × Int :=
  match Sys.ofNumber c.nr with
  | none => (s, linuxEnosys)
  | some nr =>
    match nr with
    | .brk => s.kernelCall (s.kernel.sysBrk c.a0)
    | .mmap => s.kernelCall (s.kernel.sysMmap c.a0 c.a1 c.a3)
    | .munmap | .mprotect | .madvise => (s, 0)
    | .read => (s, sysRead c.env c.a0 c.a2)
    | .write => (s, s.sysWrite c.a0 c.a2)
    | .writev => (s, s.sysWritev c.a0 0 (c.env.iovLens.take c.a2))
    | .openat => s.sysOpenat c.env.path
    | .close => s.sysClose c.a0
    | .fstat => (s, sysFstat c.a0)
    | .fstatat | .faccessat | .readlinkat => (s, linuxEnoent)
    | .ioctl => (s, 0)
    | .exit => s.kernelCall (s.kernel.sysExit, toI64 c.a0)
    | .exitGroup => s.kernelCall (s.kernel.sysExitGroup, toI64 c.a0)
    | .getpid | .gettid => (s, s.kernel.sysGetpid)
    | .getppid | .getuid | .geteuid | .getgid | .getegid => (s, 0)
    | .setTidAddress => ({ s with tidAddress := c.a0 }, s.kernel.sysGetpid)
    | .clone => (s, linuxEnosys)
    | .schedYield => s.kernelCall (c.env.yield s.kernel, 0)
    | .kill | .tkill => (s, 0)
    | .clockGettime => (s, 0)
    | .rtSigaction | .rtSigprocmask | .rtSigreturn | .sigaltstack => (s, 0)
    | .uname => (s, 0)
    | .getrandom => (s, toI64 c.a1)
    | .futex => (s, 0)
    | .rseq => (s, linuxEnosys)
    | .socket => s.sysSocket c.a0 c.a1
    | .bind => s.sysBind c.env c.a0 c.a2
    | .listen => s.sysListen c.a0
    | .accept => s.sysAccept c.env c.a0
    | .connect => s.sysConnect c.env c.a0 c.a2
    | .sendto => s.sysSendto c.env c.a0 c.a2 c.a4 c.a5
    | .recvfrom => s.sysRecvfrom c.env c.a0 c.a2
    | .setsockopt => (s, setsockopt s.net (toI32 c.a0))
    | .getsockopt => (s, getsockopt s.net (toI32 c.a0))
    | .getsockname =>
      (s, nameResult (getsockname s.net c.env.ip (toI32 c.a0) (c.env.addrlenAt c.a1 c.a2)))
    | .getpeername => (s, nameResult (getpeername s.net (toI32 c.a0) (c.env.addrlenAt c.a1 c.a2)))

/-- mirrors src/compat/linux_syscalls.cpp:420-432 -/
def SysState.init (s : SysState) : SysState :=
  { s with
    fdTable := fun i => if i.val < 3 then .console else .none
    kernel := { s.kernel with currentBrk := 0, brkBase := 0, mmapNext := mmapBase } }

/-- System calls after `Socket::init` and `LinuxSyscall::init`. -/
def sysLTS (G : SysState → SysCall → Prop) : LTS SysState SysCall where
  init s := ∃ s₀ : SysState, s = { s₀.init with net := s₀.net.init }
  step s c s' := G s c ∧ s' = (s.dispatch c).1

end HackersOs.L5
