import HackersOs.L3Net.SocketOwners
import HackersOs.L5User.Dispatch

/-!
# Descriptors

The numbers that `openat`, `socket` and `accept` return, and `close`. What a
call does to the two tables is said once, in `dispatch_table`.

Results:
* `descriptors_iff`: a descriptor that a call returns is new exactly when the
  other table has nothing under that number, and as long as it is so every
  number names at most one object.
* `close_leaves_socket_open`: no socket is ever closed.
-/
namespace HackersOs.L5
open HackersOs.Core L3 L3.Socket

/-! ## Which sockets a call opens -/

section
variable {s s' : Sockets} {i j : Fin 64}

def ActiveSame (s s' : Sockets) : Prop := ∀ i, (s'.entries i).active = (s.entries i).active

/-- Socket `i` becomes active. -/
def Activated (s s' : Sockets) (i : Fin 64) : Prop :=
  ∀ j, (s'.entries j).active = ((s.entries j).active || decide (j = i))

theorem ActiveSame.refl (s : Sockets) : ActiveSame s s := fun _ => rfl

theorem ActiveSame.trans {s'' : Sockets} (h : ActiveSame s s') (h' : ActiveSame s' s'') :
    ActiveSame s s'' := fun i => (h' i).trans (h i)

theorem activeSame_set {e : SocketEntry} (h : e.active = (s.entries i).active) :
    ActiveSame s (s.set i e) := by
  intro j
  by_cases hj : j = i
  · subst hj
    rw [set_self, h]
  · simp [Sockets.set, hj]

theorem activated_set {e : SocketEntry} (h : e.active = true) : Activated s (s.set i e) i := by
  intro j
  by_cases hj : j = i
  · subst hj
    simp [h]
  · simp [Sockets.set, hj]

theorem activeSame_bind (s : Sockets) (fd : Int) (sa : SockAddr) (addrlen : Nat) :
    ActiveSame s (bind s fd sa addrlen).1 := by
  unfold Socket.bind
  split
  · exact .refl s
  rename_i i _
  have hset : ActiveSame s (s.set i { s.entries i with localPort := sa.port }) :=
    activeSame_set rfl
  split
  · exact .refl s
  · split <;> exact hset

theorem activeSame_listen (s : Sockets) (fd : Int) : ActiveSame s (listen s fd).1 := by
  unfold Socket.listen
  repeat' split
  all_goals exact .refl s

theorem activeSame_connect (s : Sockets) (fd : Int) (sa : SockAddr) (addrlen : Nat) (run : Tcp.IpRun)
    (polls : List Tcp.Polled) : ActiveSame s (connect s fd sa addrlen run polls).1 := by
  unfold Socket.connect
  split
  · exact .refl s
  rename_i i _
  have hset : ActiveSame s
      (s.set i { s.entries i with remoteIp := sa.addr, remotePort := sa.port }) :=
    activeSame_set rfl
  split
  · exact .refl s
  · split <;> exact hset

theorem activeSame_sendto (s : Sockets) (fd : Int) (buf : List UInt8) (dest : Option (SockAddr × Nat))
    (env : SendEnv) : ActiveSame s (sendto s fd buf dest env).1 := by
  have hport : ∀ i, ActiveSame s (autoPort s i) := by
    intro i
    unfold autoPort
    split
    · exact activeSame_set rfl
    · exact .refl s
  unfold sendto
  split
  · exact .refl s
  rename_i i _
  split
  · split <;> exact .refl s
  · exact hport i
  · exact .refl s

theorem activeSame_udpInput (s : Sockets) (d : Datagram) : ActiveSame s (socketUdpInput s d) := by
  unfold socketUdpInput
  split
  · exact .refl s
  · exact activeSame_set rfl

theorem activeSame_udpPoll (s : Sockets) (p : UdpPoll) : ActiveSame s (udpPoll s p) := by
  have hfold : ∀ (ds : List Datagram) (t : Sockets), ActiveSame t (ds.foldl socketUdpInput t) := by
    intro ds
    induction ds with
    | nil => exact .refl
    | cons d ds ih => exact fun t => (activeSame_udpInput t d).trans (ih _)
  exact hfold p.packets { s with tcp := Tcp.pollSegs s.tcp p.segs }

theorem activeSame_udpWait (i : Fin 64) (s : Sockets) (ps : List UdpPoll) :
    ActiveSame s (udpWait i s ps) := by
  induction ps generalizing s with
  | nil => exact .refl s
  | cons p ps ih =>
    rw [udpWait]
    split
    · exact .refl s
    · split
      · exact (activeSame_udpPoll s p).trans (ih _)
      · exact .refl s

theorem activeSame_recvfrom (s : Sockets) (fd : Int) (len : Nat) (env : RecvEnv) :
    ActiveSame s (recvfrom s fd len env).1 := by
  unfold recvfrom
  split
  · exact .refl s
  rename_i i _
  split
  · split <;> exact .refl s
  · split
    · exact .refl s
    have hw := activeSame_udpWait i s env.udp
    dsimp only
    split
    · exact hw
    refine hw.trans ?_
    unfold udpRead
    split
    · exact .refl _
    · exact activeSame_set rfl
  · exact .refl s

/-- `create` will return the socket in slot `i`. -/
def CreateTakes (s : Sockets) (domain type : Nat) (i : Fin 64) : Prop :=
  domain = afInet ∧ (∃ st, sockTypeOf type = some st ∧ (st = .tcp → (Tcp.openConn s.tcp).2 ≠ none)) ∧
    firstEntry s = some i

theorem create_takes (s : Sockets) (domain type : Nat) :
    ((create s domain type).2 < 0 ∧ ActiveSame s (create s domain type).1 ∧
      ∀ i, ¬ CreateTakes s domain type i) ∨
    ∃ i, CreateTakes s domain type i ∧ (create s domain type).2 = fdOf i ∧
      Activated s (create s domain type).1 i := by
  unfold create
  by_cases hd : domain = afInet
  · rw [if_neg (not_not.mpr hd)]
    cases hst : sockTypeOf type with
    | none =>
      refine .inl ⟨show Socket.linuxEinval < 0 by decide, .refl s, fun i h => ?_⟩
      obtain ⟨-, ⟨st, h, -⟩, -⟩ := h
      rw [hst] at h
      cases h
    | some st =>
      dsimp only
      cases hi : firstEntry s with
      | none =>
        refine .inl ⟨show Socket.linuxEnomem < 0 by decide, .refl s, fun i h => ?_⟩
        rw [h.2.2] at hi
        cases hi
      | some i =>
        have hfree := firstEntry_free hi
        cases st with
        | tcp =>
          cases ho : (Tcp.openConn s.tcp).2 with
          | none =>
            refine .inl ⟨show Socket.linuxEnomem < 0 by decide, activeSame_set hfree.symm,
              fun k h => ?_⟩
            obtain ⟨-, ⟨st, h, hopen⟩, -⟩ := h
            rw [hst] at h
            cases h
            exact hopen rfl ho
          | some c =>
            exact .inr ⟨i, ⟨hd, ⟨_, hst, fun _ => by rw [ho]; exact nofun⟩, hi⟩, rfl,
              activated_set rfl⟩
        | udp | raw | none =>
          exact .inr ⟨i, ⟨hd, ⟨_, hst, fun h => by cases h⟩, hi⟩, rfl, activated_set rfl⟩
  · rw [if_pos hd]
    exact .inl ⟨show linuxEafnosupport < 0 by decide, .refl s, fun i h => hd h.1⟩

/-- `accept` will return a socket in slot `j`. -/
def AcceptTakes (s : Sockets) (fd : Int) (polls : List Tcp.Polled) (j : Fin 64) : Prop :=
  ∃ i l, fdToIdx s fd = some i ∧ (s.entries i).type = .tcp ∧ (s.entries i).tcpConnId = some l ∧
    (tcpAccept s.tcp l polls).2 ≠ none ∧ firstEntry s = some j

theorem accept_takes (s : Sockets) (fd : Int) (polls : List Tcp.Polled) :
    ((accept s fd polls).2 < 0 ∧ ActiveSame s (accept s fd polls).1 ∧
      ∀ j, ¬ AcceptTakes s fd polls j) ∨
    ∃ j, AcceptTakes s fd polls j ∧ (accept s fd polls).2 = fdOf j ∧
      Activated s (accept s fd polls).1 j := by
  unfold Socket.accept
  cases hi : fdToIdx s fd with
  | none =>
    refine .inl ⟨show linuxEnotsock < 0 by decide, .refl s, fun j h => ?_⟩
    obtain ⟨k, l, h, -⟩ := h
    rw [hi] at h
    cases h
  | some i =>
    dsimp only
    by_cases ht : (s.entries i).type = .tcp
    · rw [if_neg (not_not.mpr ht)]
      cases hl : (s.entries i).tcpConnId with
      | none =>
        refine .inl ⟨show linuxEagain < 0 by decide, .refl s, fun j h => ?_⟩
        obtain ⟨k, l, h, -, hid, -⟩ := h
        rw [hi] at h
        cases h
        rw [hl] at hid
        cases hid
      | some l =>
        dsimp only
        cases hr : (tcpAccept s.tcp l polls).2 with
        | none =>
          refine .inl ⟨show linuxEagain < 0 by decide, .refl s, fun j h => ?_⟩
          obtain ⟨k, l', h, -, hid, hne, -⟩ := h
          rw [hi] at h
          cases h
          rw [hl] at hid
          cases hid
          exact hne hr
        | some c =>
          have hfirst : firstEntry { s with tcp := (tcpAccept s.tcp l polls).1 } = firstEntry s := rfl
          unfold wrapAccepted
          rw [hfirst]
          cases hj : firstEntry s with
          | none =>
            refine .inl ⟨show Socket.linuxEnomem < 0 by decide, .refl s, fun j h => ?_⟩
            obtain ⟨k, l', -, -, -, -, h⟩ := h
            rw [hj] at h
            cases h
          | some j =>
            exact .inr ⟨j, ⟨i, l, hi, ht, hl, by rw [hr]; exact nofun, hj⟩, rfl,
              activated_set rfl⟩
    · rw [if_pos ht]
      refine .inl ⟨show Socket.linuxEinval < 0 by decide, .refl s, fun j h => ?_⟩
      obtain ⟨k, l, h, htk, -⟩ := h
      rw [hi] at h
      cases h
      exact ht htk

end

/-! ## What a call does to the tables -/

/-- The calls that return a descriptor. -/
def Opening (c : SysCall) : Prop :=
  Sys.ofNumber c.nr = some .openat ∨ Sys.ofNumber c.nr = some .socket ∨
    Sys.ofNumber c.nr = some .accept

/-- The call will return the descriptor of socket `i`. -/
def SocketTakes (s : SysState) (c : SysCall) (i : Fin 64) : Prop :=
  (Sys.ofNumber c.nr = some .socket ∧ CreateTakes s.net (toU32 c.a0) (c.a1 &&& 0xFF) i) ∨
    (Sys.ofNumber c.nr = some .accept ∧ AcceptTakes s.net (toI32 c.a0) c.env.polls i)

/-- The call will return the entry `i` of `fd_table`. -/
def FdTakes (s : SysState) (c : SysCall) (i : Fin 256) : Prop :=
  Sys.ofNumber c.nr = some .openat ∧ c.env.path = devNull ∧ s.freeFd = some i

inductive TableStep (s : SysState) (c : SysCall) : SysState × Int → Prop
  | same {s' : SysState} {r : Int} : s'.fdTable = s.fdTable → ActiveSame s.net s'.net →
      (Opening c → r < 0) → (∀ i, ¬ SocketTakes s c i) →
        (∀ i, ¬ FdTakes s c i) → TableStep s c (s', r)
  | openFd {i : Fin 256} : FdTakes s c i → (∀ i, ¬ SocketTakes s c i) →
      TableStep s c (s.setFd i .console, i.val)
  | closeFd {i : Fin 256} {r : Int} : ¬ Opening c → TableStep s c (s.setFd i .none, r)
  | openSocket {s' : SysState} {i : Fin 64} : SocketTakes s c i → s'.fdTable = s.fdTable →
      Activated s.net s'.net i → (∀ i, ¬ FdTakes s c i) → TableStep s c (s', fdOf i)

section
variable {s s' : SysState} {c : SysCall} {i : Fin 64} {d : Nat}

/-- A call that is none of the three. -/
theorem TableStep.other {nr : Sys} (hnr : Sys.ofNumber c.nr = some nr) (ho : nr ≠ .openat)
    (hs : nr ≠ .socket) (ha : nr ≠ .accept) {r : Int} (hf : s'.fdTable = s.fdTable)
    (hn : ActiveSame s.net s'.net) : TableStep s c (s', r) := by
  refine .same hf hn (fun h => ?_) (fun i h => ?_) fun i h => ?_
  · unfold Opening at h
    simp only [hnr, Option.some.injEq, ho, hs, ha, or_self] at h
  · unfold SocketTakes at h
    simp only [hnr, Option.some.injEq, hs, ha, false_and, or_self] at h
  · exact ho (Option.some.inj (hnr.symm.trans h.1))

theorem openat_table (hnr : Sys.ofNumber c.nr = some .openat) :
    TableStep s c (s.sysOpenat c.env.path) := by
  have hsock : ∀ i, ¬ SocketTakes s c i := fun i h => by
    rcases h with ⟨h, -⟩ | ⟨h, -⟩ <;> rw [hnr] at h <;> cases h
  unfold SysState.sysOpenat
  split
  · rename_i hpath
    cases hi : s.freeFd with
    | none => exact .same rfl (.refl _) (fun _ => by decide) hsock fun i h =>
      nomatch hi.symm.trans h.2.2
    | some i => exact .openFd ⟨hnr, hpath, hi⟩ hsock
  · rename_i hpath
    exact .same rfl (.refl _) (fun _ => by decide) hsock fun i h => hpath h.2.1

theorem close_table (hnr : Sys.ofNumber c.nr = some .close) (fd : Nat) :
    TableStep s c (s.sysClose fd) := by
  have hno : ¬ Opening c := fun h => by
    rcases h with h | h | h <;> rw [hnr] at h <;> cases h
  unfold SysState.sysClose
  split
  · exact .other hnr nofun nofun nofun rfl (.refl _)
  · split
    · exact .closeFd hno
    · exact .other hnr nofun nofun nofun rfl (.refl _)

/-- A call that hands out a socket: `T` says which one it takes. -/
theorem TableStep.socket {r : Sockets × Int} {T : Fin 64 → Prop} (hfd : ∀ i, ¬ FdTakes s c i)
    (hT : ∀ i, SocketTakes s c i ↔ T i)
    (h : (r.2 < 0 ∧ ActiveSame s.net r.1 ∧ ∀ i, ¬ T i) ∨
      ∃ i, T i ∧ r.2 = fdOf i ∧ Activated s.net r.1 i) : TableStep s c (s.netCall r) := by
  rcases h with ⟨hneg, hsame, hno⟩ | ⟨i, htakes, hr, hact⟩
  · exact .same rfl hsame (fun _ => hneg) (fun i h => hno i ((hT i).mp h)) hfd
  · rw [SysState.netCall, hr]
    exact .openSocket ((hT i).mpr htakes) rfl hact hfd

theorem socket_table (hnr : Sys.ofNumber c.nr = some .socket) :
    TableStep s c (s.sysSocket c.a0 c.a1) :=
  .socket (fun _ h => nomatch hnr.symm.trans h.1) (fun _ => by simp [SocketTakes, hnr])
    (create_takes ..)

theorem accept_table (hnr : Sys.ofNumber c.nr = some .accept) :
    TableStep s c (s.sysAccept c.env c.a0) :=
  .socket (fun _ h => nomatch hnr.symm.trans h.1) (fun _ => by simp [SocketTakes, hnr])
    (accept_takes ..)

theorem dispatch_table (s : SysState) (c : SysCall) : TableStep s c (s.dispatch c) := by
  unfold SysState.dispatch
  cases hnr : Sys.ofNumber c.nr with
  | none =>
    refine .same rfl (.refl _) (fun h => ?_) (fun i h => ?_) fun i h => ?_
    · rcases h with h | h | h <;> rw [hnr] at h <;> cases h
    · rcases h with ⟨h, -⟩ | ⟨h, -⟩ <;> rw [hnr] at h <;> cases h
    · exact nomatch hnr.symm.trans h.1
  | some nr =>
    cases nr with
    | openat => exact openat_table hnr
    | close => exact close_table hnr _
    | socket => exact socket_table hnr
    | accept => exact accept_table hnr
    | bind => exact .other hnr nofun nofun nofun rfl (activeSame_bind _ _ _ _)
    | listen => exact .other hnr nofun nofun nofun rfl (activeSame_listen _ _)
    | connect => exact .other hnr nofun nofun nofun rfl (activeSame_connect _ _ _ _ _ _)
    | sendto => exact .other hnr nofun nofun nofun rfl (activeSame_sendto _ _ _ _ _)
    | recvfrom => exact .other hnr nofun nofun nofun rfl (activeSame_recvfrom _ _ _ _)
    | _ => exact .other hnr nofun nofun nofun rfl (.refl _)

/-! ## One descriptor space -/

/-- Number `d` is open in `fd_table`. -/
def FdOpen (s : SysState) (d : Nat) : Prop := ∃ h : d < 256, s.fdTable ⟨d, h⟩ ≠ .none

/-- Number `d` is open in the socket table. -/
def SocketOpen (s : SysState) (d : Nat) : Prop := fdToIdx s.net d ≠ none

/-- Every number names at most one open object. -/
def OneName (s : SysState) : Prop := ∀ d, ¬ (FdOpen s d ∧ SocketOpen s d)

/-- A descriptor the call returns is open in neither table before. -/
def NewAnswer (s : SysState) (c : SysCall) : Prop :=
  Opening c → ∀ d : Nat, (s.dispatch c).2 = d → ¬ FdOpen s d ∧ ¬ SocketOpen s d

/-- What the call takes from one table has a number that the other one does not
use. -/
def KeepsNames (s : SysState) (c : SysCall) : Prop :=
  (∀ i, FdTakes s c i → ¬ SocketOpen s i.val) ∧ ∀ i, SocketTakes s c i → ¬ FdOpen s (100 + i.val)

theorem socketOpen_iff : SocketOpen s d ↔
    ∃ i : Fin 64, d = 100 + i.val ∧ (s.net.entries i).active = true := by
  unfold SocketOpen
  rw [Option.ne_none_iff_exists']
  simp only [fdToIdx_eq_some, fdOf, socketFdBase]
  constructor
  all_goals
    rintro ⟨i, h, ha⟩
    exact ⟨i, by omega, ha⟩

theorem SocketTakes.free (h : SocketTakes s c i) : (s.net.entries i).active = false := by
  rcases h with ⟨-, h⟩ | ⟨-, -, -, -, -, -, -, h⟩
  · exact firstEntry_free h.2.2
  · exact firstEntry_free h

theorem freeFd_spec {i : Fin 256} (h : s.freeFd = some i) : 3 ≤ i.val ∧ s.fdTable i = .none := by
  have := List.find?_some h
  simpa using this

theorem newAnswer_iff (s : SysState) (c : SysCall) : NewAnswer s c ↔ KeepsNames s c := by
  have hstep := dispatch_table s c
  unfold NewAnswer
  generalize s.dispatch c = r at hstep
  cases hstep with
  | same _ _ hneg hs hf =>
    refine iff_of_true (fun ho d hd => ?_) ⟨fun i h => absurd h (hf i), fun i h => absurd h (hs i)⟩
    have := hneg ho
    omega
  | @openFd i htakes hs =>
    have hnr := htakes.1
    have hfree := htakes.2.2
    constructor
    · intro hnew
      refine ⟨fun j hj => ?_, fun j h => absurd h (hs j)⟩
      obtain rfl : i = j := Option.some.inj (hfree.symm.trans hj.2.2)
      exact (hnew (.inl hnr) i.val rfl).2
    · intro hk _ d hd
      obtain rfl : i.val = d := by dsimp only at hd; omega
      refine ⟨fun ⟨_, hopen⟩ => hopen (freeFd_spec hfree).2, hk.1 i htakes⟩
  | closeFd hno =>
    refine iff_of_true (fun ho => absurd ho hno) ⟨fun i h => ?_, fun i h => ?_⟩
    · exact absurd (.inl h.1) hno
    · rcases h with ⟨h, -⟩ | ⟨h, -⟩
      · exact absurd (.inr (.inl h)) hno
      · exact absurd (.inr (.inr h)) hno
  | @openSocket _ i htakes _ _ hf =>
    have hfree := htakes.free
    have hfirst : ∀ j, SocketTakes s c j → j = i := by
      intro j hj
      have h1 : firstEntry s.net = some i := by
        rcases htakes with ⟨-, h⟩ | ⟨-, -, -, -, -, -, -, h⟩
        · exact h.2.2
        · exact h
      have h2 : firstEntry s.net = some j := by
        rcases hj with ⟨-, h⟩ | ⟨-, -, -, -, -, -, -, h⟩
        · exact h.2.2
        · exact h
      exact Option.some.inj (h2.symm.trans h1)
    constructor
    · intro hnew
      refine ⟨fun j h => absurd h (hf j), fun j hj => ?_⟩
      rw [hfirst j hj]
      refine (hnew ?_ (100 + i.val) (by simp [fdOf, socketFdBase])).1
      rcases htakes with ⟨h, -⟩ | ⟨h, -⟩
      · exact .inr (.inl h)
      · exact .inr (.inr h)
    · intro hk _ d hd
      obtain rfl : d = 100 + i.val := by
        simp only [fdOf, socketFdBase] at hd
        omega
      refine ⟨hk.2 i htakes, fun hopen => ?_⟩
      obtain ⟨j, hj, ha⟩ := socketOpen_iff.mp hopen
      obtain rfl : i = j := by apply Fin.ext; omega
      rw [hfree] at ha
      cases ha

theorem OneName.dispatch (h : OneName s) (hk : KeepsNames s c) : OneName (s.dispatch c).1 := by
  have hstep := dispatch_table s c
  generalize s.dispatch c = r at hstep
  intro d hd
  cases hstep with
  | @same s' r hf hn _ _ _ =>
    obtain ⟨⟨hlt, hopen⟩, hsock⟩ := hd
    obtain ⟨i, hi, ha⟩ := socketOpen_iff.mp hsock
    exact h d ⟨⟨hlt, hf ▸ hopen⟩, socketOpen_iff.mpr ⟨i, hi, hn i ▸ ha⟩⟩
  | @openFd i htakes _ =>
    obtain ⟨⟨hlt, hopen⟩, hsock⟩ := hd
    by_cases hdi : (⟨d, hlt⟩ : Fin 256) = i
    · subst hdi
      exact hk.1 _ htakes hsock
    · refine h d ⟨⟨hlt, ?_⟩, hsock⟩
      simpa [SysState.setFd, hdi] using hopen
  | @closeFd i r _ =>
    obtain ⟨⟨hlt, hopen⟩, hsock⟩ := hd
    refine h d ⟨⟨hlt, ?_⟩, hsock⟩
    by_cases hdi : (⟨d, hlt⟩ : Fin 256) = i
    · subst hdi
      simp [SysState.setFd] at hopen
    · simpa [SysState.setFd, hdi] using hopen
  | @openSocket s' i htakes hf hact _ =>
    obtain ⟨⟨hlt, hopen⟩, hsock⟩ := hd
    have hfd : FdOpen s d := ⟨hlt, hf ▸ hopen⟩
    obtain ⟨j, rfl, ha⟩ := socketOpen_iff.mp hsock
    by_cases hji : j = i
    · exact hk.2 i htakes (hji ▸ hfd)
    · refine h _ ⟨hfd, socketOpen_iff.mpr ⟨j, rfl, ?_⟩⟩
      have := hact j
      simp only [hji, decide_false, Bool.or_false] at this
      exact this ▸ ha

theorem not_socketOpen_init {s₀ : SysState} : ¬ SocketOpen { s₀.init with net := s₀.net.init } d := by
  intro h
  obtain ⟨i, -, ha⟩ := socketOpen_iff.mp h
  simp [Sockets.init, zeroEntry] at ha

theorem oneName_inductive : (sysLTS KeepsNames).Inductive OneName where
  init := by
    rintro s ⟨s₀, rfl⟩ d ⟨-, hsock⟩
    exact not_socketOpen_init hsock
  step := by
    rintro s c s' h ⟨hk, rfl⟩
    exact h.dispatch hk

/-- In every run whose calls take numbers the other table does not use, a number
names at most one object; and the descriptor a call returns is new exactly for
such a call. -/
theorem descriptors_iff (hr : (sysLTS KeepsNames).Reachable s) :
    OneName s ∧ ∀ c, NewAnswer s c ↔ KeepsNames s c :=
  ⟨oneName_inductive.reachable s hr, newAnswer_iff s⟩

end

/-! ### `/dev/null` under the number of a socket -/

def demoEnv : CallEnv where
  path := devNull
  buf := fun _ => 0
  iovLens := []
  addr := ⟨0, 0⟩
  addrlen := 16
  typed := fun _ => 0x0A
  ip := 0
  run := Tcp.sentAt 0
  polls := []
  send := ⟨[], Tcp.sentAt 0⟩
  recv := ⟨[], []⟩
  yield := id

def bootSys : SysState where
  kernel := Kernel.init ⟨fun _ => 0, L2.Pages.init 0x10000 0x40002000, fun _ _ => none⟩ 0
  fdTable := fun i => if i.val < 3 then .console else .none
  net := bootSockets
  tidAddress := 0

/-- `openat(AT_FDCWD, "/dev/null", O_RDONLY)` -/
def callOpenNull : SysCall := ⟨56, 2 ^ 64 - 100, 0x1000, 0, 0, 0, 0, demoEnv⟩

/-- `socket(AF_INET, SOCK_DGRAM, 0)` -/
def callSocket : SysCall := ⟨198, 2, 2, 0, 0, 0, 0, demoEnv⟩

theorem boot_sys (G : SysState → SysCall → Prop) : (sysLTS G).Reachable bootSys :=
  ⟨bootSys, [], ⟨bootSys, rfl⟩, .nil _⟩

/-- The first `n` numbers of `fd_table` are taken. -/
def Filled (s : SysState) (n : Nat) : Prop :=
  ∀ i : Fin 256, s.fdTable i = if i.val < n then .console else .none

theorem Filled.freeFd {s : SysState} {n : Nat} (h : Filled s n) (h3 : 3 ≤ n) (hn : n < 256) :
    s.freeFd = some ⟨n, hn⟩ := by
  unfold SysState.freeFd
  rw [List.find?_eq_some_iff_getElem]
  refine ⟨by simp [h3, h ⟨n, hn⟩], n, by simpa using hn, by simp, fun j hj => ?_⟩
  have hlt : j < 256 := by omega
  simp [h ⟨j, hlt⟩, hj]

/-- As long as no number from 100 on is taken. -/
theorem Filled.keepsNames {s : SysState} {n : Nat} (h : Filled s n) (h3 : 3 ≤ n) (hn : n < 100)
    (c : SysCall) : KeepsNames s c := by
  refine ⟨fun i ⟨_, _, hi⟩ hopen => ?_, fun i _ ⟨hlt, hne⟩ => hne ?_⟩
  · cases (h.freeFd h3 (by omega)).symm.trans hi
    obtain ⟨j, hj, -⟩ := socketOpen_iff.mp hopen
    dsimp only at hj
    omega
  · have : ¬ 100 + i.val < n := by omega
    rw [h, if_neg this]

theorem Filled.openNull {s : SysState} {n : Nat} (h : Filled s n) (h3 : 3 ≤ n) (hn : n < 256) :
    (s.dispatch callOpenNull).2 = n ∧ Filled (s.dispatch callOpenNull).1 (n + 1) ∧
      (s.dispatch callOpenNull).1.net = s.net := by
  have hfree := h.freeFd h3 hn
  have hd : s.dispatch callOpenNull = (s.setFd ⟨n, hn⟩ .console, (n : Int)) := by
    simp [SysState.dispatch, callOpenNull, Sys.ofNumber, SysState.sysOpenat, demoEnv, hfree]
  rw [hd]
  refine ⟨rfl, fun i => ?_, rfl⟩
  by_cases hi : i = ⟨n, hn⟩
  · subst hi
    simp [SysState.setFd]
  · have : i.val ≠ n := fun e => hi (Fin.ext e)
    have hiff : i.val < n + 1 ↔ i.val < n := by omega
    simp only [SysState.setFd, Function.update_of_ne hi, h i, hiff]

theorem Filled.openNulls {s : SysState} {n : Nat} (h : Filled s n) (h3 : 3 ≤ n) {k : Nat}
    (hk : n + k ≤ 256) (hr : (sysLTS fun _ _ => True).Reachable s) :
    ∃ s', (sysLTS fun _ _ => True).Reachable s' ∧ Filled s' (n + k) ∧ s'.net = s.net := by
  induction k with
  | zero => exact ⟨s, hr, h, rfl⟩
  | succ k ih =>
    obtain ⟨s', hr', hfill, hnet⟩ := ih (by omega)
    obtain ⟨-, hfill', hnet'⟩ := hfill.openNull (by omega) (by omega)
    exact ⟨_, hr'.step ⟨trivial, rfl⟩, hfill', hnet'.trans hnet⟩

/-- **Counterexample**: a socket has number 100; after 97 calls that open
`/dev/null` the next one returns 100 too. -/
theorem openat_returns_socket_number : ∃ s, (sysLTS fun _ _ => True).Reachable s ∧
    (bootSys.dispatch callSocket).2 = 100 ∧ SocketOpen s 100 ∧ (s.dispatch callOpenNull).2 = 100 ∧
    ¬ NewAnswer s callOpenNull ∧ ¬ OneName (s.dispatch callOpenNull).1 := by
  have hfd : (bootSys.dispatch callSocket).2 = 100 := by decide +kernel
  have hopen : fdToIdx (bootSys.dispatch callSocket).1.net 100 = some 0 := by decide +kernel
  have hfill : Filled (bootSys.dispatch callSocket).1 3 := fun i => rfl
  obtain ⟨s, hr, hfill, hnet⟩ := hfill.openNulls (Nat.le_refl 3) (k := 97) (by decide)
    ((boot_sys _).step ⟨trivial, rfl⟩)
  obtain ⟨hres, hfill', hnet'⟩ := hfill.openNull (by decide) (by decide)
  have hsock : SocketOpen s 100 := by
    unfold SocketOpen
    rw [hnet, show ((100 : Nat) : Int) = 100 from rfl, hopen]
    exact nofun
  refine ⟨s, hr, hfd, hsock, hres, fun hnew => ?_, fun hone => ?_⟩
  · exact (hnew (.inl rfl) 100 hres).2 hsock
  refine hone 100 ⟨⟨by decide, ?_⟩, ?_⟩
  · rw [hfill' ⟨100, by decide⟩]
    decide
  · unfold SocketOpen
    rw [hnet']
    exact hsock

/-- A second `socket`, with one and `/dev/null` open, meets the condition. -/
theorem descriptors_used : ∃ s, (sysLTS KeepsNames).Reachable s ∧ FdOpen s 3 ∧ SocketOpen s 100 ∧
    OneName s ∧ NewAnswer s callSocket := by
  have hboot : Filled bootSys 3 := fun i => rfl
  have hfill : Filled (bootSys.dispatch callSocket).1 3 := fun i => rfl
  obtain ⟨-, hfill', hnet⟩ := hfill.openNull (by decide) (by decide)
  have hr := ((boot_sys KeepsNames).step ⟨hboot.keepsNames (by decide) (by decide) callSocket,
    rfl⟩).step
    ⟨hfill.keepsNames (by decide) (by decide) callOpenNull, rfl⟩
  obtain ⟨hone, hiff⟩ := descriptors_iff hr
  refine ⟨_, hr, ⟨by decide, ?_⟩, ?_, hone,
    (hiff _).mpr (hfill'.keepsNames (by decide) (by decide) _)⟩
  · rw [hfill' ⟨3, by decide⟩]
    decide
  · rw [SocketOpen, hnet]
    decide +kernel

/-! ## Closing -/

/-- An operation on a socket descriptor. -/
def Sys.onSocket : Sys → Bool
  | .bind | .listen | .accept | .connect | .sendto | .recvfrom | .setsockopt | .getsockopt
  | .getsockname | .getpeername => true
  | _ => false

/-- A connection that `TCP::close` has been called for. -/
def StartedClosing (conn : Tcp.TcpConnection) : Prop :=
  conn.active = false ∨ conn.state = .finWait1 ∨ conn.state = .lastAck

/-- What a program expects of `close` on the descriptor `d` of socket `i`. -/
structure ReallyClosed (s : SysState) (d : Nat) (i : Fin 64) : Prop where
  fails : ∀ c nr, Sys.ofNumber c.nr = some nr → nr.onSocket = true → c.a0 = d → (s.dispatch c).2 < 0
  available : (s.net.entries i).active = false
  closing : (s.net.entries i).type = .tcp → ∀ k, (s.net.entries i).tcpConnId = some k →
    StartedClosing (s.net.tcp.conns k)

section
variable {s s' : SysState} {c : SysCall} {i : Fin 64} {d : Nat}

/-- No call makes a socket inactive. -/
theorem dispatch_active (h : (s.net.entries i).active = true) :
    ((s.dispatch c).1.net.entries i).active = true := by
  have hstep := dispatch_table s c
  generalize s.dispatch c = r at hstep
  cases hstep with
  | same _ hn => rw [hn i, h]
  | openFd => exact h
  | closeFd => exact h
  | openSocket _ _ hact => rw [hact i, h, Bool.true_or]

theorem run_active {ls : List SysCall} (hrun : (sysLTS fun _ _ => True).Run s ls s')
    (h : (s.net.entries i).active = true) : (s'.net.entries i).active = true :=
  hrun.invariant (I := fun s => (s.net.entries i).active = true)
    (fun _ _ _ h hstep => by rw [hstep.2]; exact dispatch_active h) h

theorem dispatch_close (hc : Sys.ofNumber c.nr = some .close) (hd : c.a0 < 256) :
    (s.dispatch c).2 = 0 ∧ (s.dispatch c).1.net = s.net := by
  simp only [SysState.dispatch, hc, SysState.sysClose, hd, dif_pos]
  split <;> exact ⟨rfl, rfl⟩

theorem socket_full (h : ∀ j, (s.net.entries j).active = true)
    (hc : Sys.ofNumber c.nr = some .socket) : (s.dispatch c).2 < 0 := by
  have hstep := dispatch_table s c
  generalize s.dispatch c = r at hstep
  cases hstep with
  | same _ _ hneg => exact hneg (.inr (.inl hc))
  | openFd htakes => exact nomatch hc.symm.trans htakes.1
  | closeFd hno => exact absurd (.inr (.inl hc)) hno
  | openSocket htakes =>
    have := htakes.free
    rw [h] at this
    cases this

theorem toI32_small (h : d < 2 ^ 31) : toI32 d = d := by
  unfold toI32
  rw [if_pos (by omega)]
  omega

/-- `close` on the descriptor of a socket returns 0 and does nothing to the
socket: it is never really closed, it stays open in every run that follows, and
operations on the descriptor succeed; once all sockets have been handed out
`socket` fails for good. -/
theorem close_leaves_socket_open (hd : fdToIdx s.net d = some i)
    (hc : Sys.ofNumber c.nr = some .close) (ha : c.a0 = d) :
    (s.dispatch c).2 = 0 ∧ (s.dispatch c).1.net = s.net ∧ ¬ ReallyClosed (s.dispatch c).1 d i ∧
    (∀ ls s', (sysLTS fun _ _ => True).Run (s.dispatch c).1 ls s' → fdToIdx s'.net d = some i ∧
      ∀ c', Sys.ofNumber c'.nr = some .setsockopt → c'.a0 = d → (s'.dispatch c').2 = 0) ∧
    ((∀ j, (s.net.entries j).active = true) →
      ∀ ls s', (sysLTS fun _ _ => True).Run (s.dispatch c).1 ls s' →
      ∀ c', Sys.ofNumber c'.nr = some .socket → (s'.dispatch c').2 < 0) := by
  obtain ⟨hdi, hact⟩ := fdToIdx_eq_some.mp hd
  have hlt : c.a0 < 256 := by
    simp only [fdOf, socketFdBase] at hdi
    omega
  obtain ⟨hres, hnet⟩ := dispatch_close (s := s) hc hlt
  refine ⟨hres, hnet, fun h => ?_, fun ls s' hrun => ?_, fun hall ls s' hrun c' hc' => ?_⟩
  · have := h.available
    rw [hnet, hact] at this
    cases this
  · have hopen : fdToIdx s'.net d = some i :=
      fdToIdx_eq_some.mpr ⟨hdi, run_active hrun (by rw [hnet]; exact hact)⟩
    refine ⟨hopen, fun c' hc' ha' => ?_⟩
    simp only [SysState.dispatch, hc', ha', toI32_small (show d < 2 ^ 31 by omega), setsockopt, hopen]
  · exact socket_full (fun j => run_active hrun (by rw [hnet]; exact hall j)) hc'

end

/-- `close(100)` and `setsockopt(100, …)` -/
def callClose : SysCall := ⟨57, 100, 0, 0, 0, 0, 0, demoEnv⟩

def callSetsockopt : SysCall := ⟨208, 100, 1, 2, 0, 0, 0, demoEnv⟩

/-- **Counterexample**: a socket is opened and closed; the options of the closed
socket can still be set, and the next socket does not get its number. -/
theorem closed_socket_still_works : (bootSys.dispatch callSocket).2 = 100 ∧
    ((bootSys.dispatch callSocket).1.dispatch callClose).2 = 0 ∧
    (((bootSys.dispatch callSocket).1.dispatch callClose).1.dispatch callSetsockopt).2 = 0 ∧
    (((bootSys.dispatch callSocket).1.dispatch callClose).1.dispatch callSocket).2 = 101 ∧
    ¬ ReallyClosed ((bootSys.dispatch callSocket).1.dispatch callClose).1 100 0 := by
  refine ⟨by decide +kernel, by decide +kernel, by decide +kernel, by decide +kernel, fun h => ?_⟩
  have := h.available
  revert this
  decide +kernel

/-- The socket of `bootSys` after `close`. -/
theorem close_leaves_socket_open_boot :
    fdToIdx ((bootSys.dispatch callSocket).1.dispatch callClose).1.net 100 = some 0 ∧
    ¬ ReallyClosed ((bootSys.dispatch callSocket).1.dispatch callClose).1 100 0 := by
  have hd : fdToIdx (bootSys.dispatch callSocket).1.net (100 : Nat) = some 0 := by decide +kernel
  obtain ⟨-, -, hnot, hstay, -⟩ := close_leaves_socket_open (c := callClose) hd rfl rfl
  exact ⟨(hstay [] _ (.nil _)).1, hnot⟩

end HackersOs.L5
