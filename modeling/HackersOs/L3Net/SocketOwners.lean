import HackersOs.L3Net.SocketSteps
import HackersOs.L3Net.TcpReuse

/-!
# Which socket owns which connection

Two things break exclusive ownership: `accept` scans all connections on the
port and wraps one that another socket has already, and `check_retransmit`
gives up a connection under its socket. Without them it holds in every state,
and each of them breaks it (`ownership_iff`). `accept_shares_connection`: two
calls of `accept` and one client.
-/
namespace HackersOs.L3.Socket
open HackersOs.Core Tcp Net

variable {G : Owners → SockAct → Prop} {a : Act} {early : Bool} {l : Slot}
  {u : TcpConnection → TcpConnection}

/-! ## Ownership -/

/-- Socket `i` is an active TCP socket with connection `c`. -/
def Owns (entries : Fin 64 → SocketEntry) (i : Fin 64) (c : Slot) : Prop :=
  (entries i).active = true ∧ (entries i).type = .tcp ∧ (entries i).tcpConnId = some c

instance (e : Fin 64 → SocketEntry) (i : Fin 64) (c : Slot) : Decidable (Owns e i c) :=
  inferInstanceAs (Decidable (_ ∧ _ ∧ _))

/-- Two active TCP sockets have different connections, and the connection of
each has been active since the socket got it. -/
def Exclusive (w : Owners) : Prop :=
  (∀ i j, i ≠ j → (w.entries i).active = true → (w.entries i).type = .tcp →
    (w.entries j).active = true → (w.entries j).type = .tcp →
    (w.entries i).tcpConnId ≠ (w.entries j).tcpConnId) ∧
  ∀ i, (w.entries i).active = true → (w.entries i).type = .tcp →
    ∃ c, (w.entries i).tcpConnId = some c ∧ (w.fine.tcp.conns c).active = true ∧
      w.closes c = w.since i

/-- `accept` wraps no connection that a socket has, and `check_retransmit` gives
up none. -/
def KeepsOwners (w : Owners) : SockAct → Prop
  | .net (.giveUp c _) => ∀ j, ¬ Owns w.entries j c
  | .accept fd early => ∀ i l c, fdToIdx w.view fd = some i → (w.entries i).type = .tcp →
      (w.entries i).tcpConnId = some l → acceptScan w.fine.tcp l early = some c →
      firstEntry w.view ≠ none → ∀ j, ¬ Owns w.entries j c
  | _ => True

def ownersLTS (G : Owners → SockAct → Prop) : LTS Owners SockAct where
  init w := ∃ s : Sockets, w.view = s.init ∧ w.fine.idle = true
  step w a w' := G w a ∧ w.step a = some w'

/-- A connection its socket can rely on: active, and not waiting for the last
ACK. -/
def Held (s : TcpSys) (c : Slot) : Prop :=
  (s.conns c).active = true ∧ (s.conns c).state ≠ .lastAck

structure OwnersInv (w : Owners) : Prop where
  unique : ∀ i j c, Owns w.entries i c → Owns w.entries j c → i = j
  named : ∀ i, (w.entries i).active = true → (w.entries i).type = .tcp →
    ∃ c, (w.entries i).tcpConnId = some c
  held : ∀ i c, Owns w.entries i c → Held w.fine.tcp c
  counted : ∀ i c, Owns w.entries i c → w.closes c = w.since i

theorem OwnersInv.exclusive {w : Owners} (h : OwnersInv w) : Exclusive w := by
  refine ⟨fun i j hij hi ht hj ht' he => ?_, fun i hi ht => ?_⟩
  · obtain ⟨c, hc⟩ := h.named i hi ht
    exact hij (h.unique i j c ⟨hi, ht, hc⟩ ⟨hj, ht', he ▸ hc⟩)
  · obtain ⟨c, hc⟩ := h.named i hi ht
    have ho : Owns w.entries i c := ⟨hi, ht, hc⟩
    exact ⟨c, hc, (h.held i c ho).1, h.counted i c ho⟩

/-! ## What the steps do to a held connection -/

section
variable {f f' : Fine} {s : TcpSys} {c j : Slot}

theorem onSegment_held {conn : TcpConnection} (ha : conn.active = true) (hs : conn.state ≠ .lastAck)
    (seg : InSeg) : (onSegment conn seg).1.active = true ∧
      (onSegment conn seg).1.state ≠ .lastAck := by
  unfold onSegment
  -- only LAST_ACK frees a connection, and no state goes there
  cases hst : conn.state <;> simp only
  case lastAck => exact absurd hst hs
  all_goals (repeat' split) <;> simp [ha, hst]

theorem Held.update (h : Held s c) (j : Slot)
    (hu : c = j → (u (s.conns c)).active = true ∧ (u (s.conns c)).state ≠ .lastAck) :
    Held (s.update j u) c := by
  unfold Held
  rw [update_conns]
  split
  · rename_i hc
    subst hc
    exact hu rfl
  · exact h

/-- A change of a connection that keeps its state. -/
theorem Held.update_same (h : Held s c) (j : Slot) (ha : ∀ x, (u x).active = x.active)
    (hs : ∀ x, (u x).state = x.state) : Held (s.update j u) c :=
  h.update j fun _ => by rw [ha, hs]; exact h

theorem Held.mark (h : Held s c) (j : Slot) (g : Ghost → Ghost) : Held (s.mark j g) c := h

/-- Only giving up takes a connection from its socket. -/
theorem Held.step (h : Held f.tcp c) (ha : netAct a = true) (hg : ∀ now, a ≠ .giveUp c now)
    (hstep : f.step a = some f') : Held f'.tcp c := by
  have hplace := place_step ha hstep c
  unfold Held
  generalize f'.tcp.conns c = conn at hplace
  cases hplace with
  | same _ hs =>
    rw [hs.active, hs.state]
    exact h
  | segment _ => exact onSegment_held h.1 h.2 _
  | passive hi => exact absurd h.1 (by simp [hi])
  | giveUp => exact absurd rfl (hg _)

theorem Held.bind (h : Held s c) (j : Slot) (port : UInt16) : Held (Tcp.bind s j port) c := by
  refine Held.mark (h.update_same j ?_ ?_) _ _ <;> intro _ <;> rfl

theorem Held.listen (h : Held s c) (j : Slot) (port : UInt16) : Held (Tcp.listen s j port) c :=
  (h.update j (u := fun x => { x with localPort := port, state := .listen })
    fun _ => ⟨h.1, by simp⟩).mark _ _

theorem Held.connectInit (h : Held s c) (j : Slot) (addr : UInt32) (port : UInt16) :
    Held (connectInit s j addr port) c := by
  unfold Held Tcp.connectInit
  dsimp only [mark_conns]
  rw [update_conns]
  split
  · exact ⟨h.1, by simp⟩
  · exact h

theorem openConn_some (ho : (openConn s).2 = some j) :
    (openConn s).1.conns j = { zeroConn with active := true, localIp := s.localIp } ∧
    (s.conns j).active = false ∧ ∀ c, c ≠ j → (openConn s).1.conns c = s.conns c := by
  unfold openConn at ho ⊢
  cases hfree : firstFree s.conns with
  | none => rw [hfree] at ho; cases ho
  | some i =>
    rw [hfree] at ho
    cases ho
    exact ⟨by simp, firstFree_some hfree, fun c hc => by simp [hc]⟩

theorem openConn_held (ho : (openConn s).2 = some j) :
    Held (openConn s).1 j ∧ (s.conns j).active = false ∧ ∀ c, Held s c → Held (openConn s).1 c := by
  obtain ⟨hnew, hact, hsame⟩ := openConn_some ho
  refine ⟨by simp [Held, hnew, zeroConn], hact, fun c h => ?_⟩
  have hc : c ≠ j := fun e => absurd h.1 (by simp [e, hact])
  unfold Held
  rw [hsame c hc]
  exact h

theorem openConn_none (ho : (openConn s).2 = none) : (openConn s).1 = s := by
  unfold openConn at ho ⊢
  cases hfree : firstFree s.conns with
  | none => rfl
  | some i => rw [hfree] at ho; cases ho

theorem acceptScan_held (h : acceptScan s l early = some c) :
    Held s c := by
  have hc := List.find?_some h
  simp only [Bool.and_eq_true, decide_eq_true_eq, Bool.or_eq_true] at hc
  obtain ⟨⟨⟨-, ha⟩, -⟩, hst | ⟨-, hst⟩⟩ := hc
  all_goals exact ⟨ha, by simp [hst]⟩

theorem Leaving.apply_held (how : Leaving) (h : Held s c) (hc : c ≠ j) :
    Held (how.apply s j) c := by
  cases how with
  | nothing => exact h
  | finWait1 | lastAck | free =>
    dsimp only [Leaving.apply]
    exact h.update j fun e => absurd e hc

end

/-! ## What the steps do to the sockets -/

/-- Nothing that ownership depends on. -/
def SameOwner (e e' : SocketEntry) : Prop :=
  e'.active = e.active ∧ e'.type = e.type ∧ e'.tcpConnId = e.tcpConnId

section
variable {w w' : Owners} {s : Sockets} {t : TcpSys} {c : Slot} {i : Fin 64}

/-- The tables change, and every owner after it owned the connection before, or
is a new socket for one that nobody owned. -/
theorem OwnersInv.next (h : OwnersInv w) (f : Fine)
    (hold : ∀ i c, Owns s.entries i c → Held s.tcp c ∧
      (Owns w.entries i c ∨ (w.entries i).active = false ∧ ∀ j, Owns s.entries j c → j = i))
    (hnamed : ∀ i, (s.entries i).active = true → (s.entries i).type = .tcp →
      ∃ c, (s.entries i).tcpConnId = some c) : OwnersInv (w.next f s) := by
  refine ⟨fun i j c hi hj => ?_, hnamed, fun i c hi => (hold i c hi).1, fun i c hi => ?_⟩
  · rcases (hold i c hi).2 with ho | ⟨-, hn⟩
    · rcases (hold j c hj).2 with ho' | ⟨-, hn⟩
      · exact h.unique i j c ho ho'
      · exact hn i hi
    · exact (hn j hj).symm
  · obtain ⟨hheld, ho | ⟨hnew, -⟩⟩ := hold i c hi
    · have hc := h.counted i c ho
      simp [Owners.next, hheld.1, ho.1, hc]
    · have hid : (s.entries i).tcpConnId = some c := hi.2.2
      simp [Owners.next, hnew, hid]

theorem SameOwner.owns {e e' : Fin 64 → SocketEntry} (h : SameOwner (e i) (e' i))
    (ho : Owns e' i c) : Owns e i c :=
  ⟨h.1 ▸ ho.1, h.2.1 ▸ ho.2.1, h.2.2 ▸ ho.2.2⟩

/-- No socket changes, and the owned connections stay held. -/
theorem OwnersInv.keep (h : OwnersInv w) (f : Fine)
    (hsame : ∀ i, SameOwner (w.entries i) (s.entries i))
    (hheld : ∀ i c, Owns w.entries i c → Held s.tcp c) : OwnersInv (w.next f s) := by
  refine h.next f (fun i c ho => ?_) fun i ha ht => ?_
  · have ho' := (hsame i).owns ho
    exact ⟨hheld i c ho', .inl ho'⟩
  · obtain ⟨hact, htype, hid⟩ := hsame i
    rw [hid]
    exact h.named i (hact ▸ ha) (htype ▸ ht)

/-- One socket changes: it is no TCP socket any more, or a new one for a
connection that nobody owns. -/
theorem OwnersInv.change (h : OwnersInv w) (f : Fine) (i : Fin 64)
    (hsame : ∀ j, j ≠ i → SameOwner (w.entries j) (s.entries j))
    (hheld : ∀ j c, j ≠ i → Owns w.entries j c → Held s.tcp c)
    (hi : ¬ ((s.entries i).active = true ∧ (s.entries i).type = .tcp) ∨
      (w.entries i).active = false ∧ ∃ c, (s.entries i).tcpConnId = some c ∧ Held s.tcp c ∧
        ∀ j, ¬ Owns w.entries j c) : OwnersInv (w.next f s) := by
  refine h.next f (fun j c ho => ?_) fun j ha ht => ?_
  · by_cases hj : j = i
    · subst hj
      rcases hi with hno | ⟨hfree, d, hid, hd, hnone⟩
      · exact absurd ⟨ho.1, ho.2.1⟩ hno
      · obtain rfl : d = c := Option.some.inj (hid.symm.trans ho.2.2)
        refine ⟨hd, .inr ⟨hfree, fun k hk => ?_⟩⟩
        by_contra hkj
        exact hnone k ((hsame k hkj).owns hk)
    · have ho' := (hsame j hj).owns ho
      exact ⟨hheld j c hj ho', .inl ho'⟩
  · by_cases hj : j = i
    · subst hj
      rcases hi with hno | ⟨-, d, hid, -⟩
      · exact absurd ⟨ha, ht⟩ hno
      · exact ⟨d, hid⟩
    · obtain ⟨hact, htype, hid⟩ := hsame j hj
      rw [hid]
      exact h.named j (hact ▸ ha) (htype ▸ ht)

theorem firstEntry_free (h : firstEntry s = some i) : (s.entries i).active = false := by
  simpa using List.find?_some h

theorem SameOwner.refl (e : SocketEntry) : SameOwner e e := ⟨rfl, rfl, rfl⟩

theorem set_ne (s : Sockets) (e : SocketEntry) {j : Fin 64} (h : j ≠ i) :
    SameOwner (s.entries j) ((s.set i e).entries j) := by
  simp only [Sockets.set, Function.update_of_ne h]
  exact .refl _

theorem set_same {e : SocketEntry} (h : SameOwner (s.entries i) e) (j : Fin 64) :
    SameOwner (s.entries j) ((s.set i e).entries j) := by
  by_cases hj : j = i
  · subst hj
    simpa only [Sockets.set, Function.update_self] using h
  · exact set_ne s e hj

theorem OwnersInv.stay (h : OwnersInv w) : OwnersInv (w.next w.fine w.view) :=
  h.keep _ (fun _ => .refl _) h.held

/-! ## Calls with an address -/

/-- What `bind` and the first part of `connect` make of the tables: nothing, if they
refuse; the new entry; and for a TCP socket with a connection also a new table of
connections. -/
inductive AddrCall (s : Sockets) (fd : Int) (addrlen : Nat) (e : Fin 64 → SocketEntry)
    (t : Slot → TcpSys) : Sockets → Prop where
  | refused : (∀ i, fdToIdx s fd = some i → ¬ sockaddrInSize ≤ addrlen) →
      AddrCall s fd addrlen e t s
  | alone {i : Fin 64} : fdToIdx s fd = some i → sockaddrInSize ≤ addrlen →
      (∀ c, ¬ Owns s.entries i c) → AddrCall s fd addrlen e t (s.set i (e i))
  | owner {i : Fin 64} {c : Slot} : fdToIdx s fd = some i → sockaddrInSize ≤ addrlen →
      Owns s.entries i c → AddrCall s fd addrlen e t { s.set i (e i) with tcp := t c }

theorem bind_call (s : Sockets) (fd : Int) (sa : SockAddr) (addrlen : Nat) :
    AddrCall s fd addrlen (fun i => { s.entries i with localPort := sa.port })
      (fun c => Tcp.bind s.tcp c sa.port) (bind s fd sa addrlen).1 := by
  unfold Socket.bind
  cases hi : fdToIdx s fd with
  | none =>
    apply AddrCall.refused
    simp [hi]
  | some i =>
    dsimp only
    split
    · rename_i hlen
      exact .refused fun _ _ => Nat.not_le.mpr hlen
    rename_i hlen
    split
    · rename_i c ht hc
      exact .owner hi (Nat.not_lt.mp hlen) ⟨fdToIdx_active hi, ht, hc⟩
    · rename_i hno
      exact .alone hi (Nat.not_lt.mp hlen) fun c ho => hno c ho.2.1 ho.2.2

theorem connectBegin_call (s : Sockets) (fd : Int) (sa : SockAddr) (addrlen : Nat) :
    AddrCall s fd addrlen (fun i => { s.entries i with remoteIp := sa.addr, remotePort := sa.port })
      (fun c => connectInit s.tcp c sa.addr sa.port) (connectBegin s fd sa addrlen) := by
  unfold connectBegin
  cases hi : fdToIdx s fd with
  | none =>
    apply AddrCall.refused
    simp [hi]
  | some i =>
    dsimp only
    split
    · rename_i hlen
      exact .refused fun _ _ => Nat.not_le.mpr hlen
    rename_i hlen
    split
    · rename_i c ht hc
      exact .owner hi (Nat.not_lt.mp hlen) ⟨fdToIdx_active hi, ht, hc⟩
    · rename_i hno
      exact .alone hi (Nat.not_lt.mp hlen) fun c ho => hno c ho.2.1 ho.2.2

section
variable {s' : Sockets} {fd : Int} {addrlen : Nat} {e : Fin 64 → SocketEntry} {t' : Slot → TcpSys}
  {Q : Sockets → Prop} {P : Fin 64 → Slot → Prop}

theorem AddrCall.keeps (h : AddrCall s fd addrlen e t' s') (hs : Q s)
    (halone : ∀ i, Q (s.set i (e i)))
    (howner : ∀ i c, Owns s.entries i c → Q { s.set i (e i) with tcp := t' c }) : Q s' := by
  cases h with
  | refused => exact hs
  | alone => exact halone _
  | owner _ _ ho => exact howner _ _ ho

theorem AddrCall.eq_owner (h : AddrCall s fd addrlen e t' s') (hi : fdToIdx s fd = some i)
    (hlen : sockaddrInSize ≤ addrlen) (ho : Owns s.entries i c) :
    s' = { s.set i (e i) with tcp := t' c } := by
  cases h with
  | refused hno => exact absurd hlen (hno i hi)
  | alone hj _ hno =>
    obtain rfl := Option.some.inj (hi.symm.trans hj)
    exact absurd ho (hno c)
  | owner hj _ hd =>
    obtain rfl := Option.some.inj (hi.symm.trans hj)
    obtain rfl := Option.some.inj (ho.2.2.symm.trans hd.2.2)
    rfl

/-- A property that only a call for a connection can break: it holds afterwards if and
only if `P` holds of the socket and the connection. -/
theorem AddrCall.holds_iff (h : AddrCall s fd addrlen e t' s') (hs : Q s)
    (halone : ∀ i, (∀ c, ¬ Owns s.entries i c) → Q (s.set i (e i)))
    (howner : ∀ i c, Owns s.entries i c → (Q { s.set i (e i) with tcp := t' c } ↔ P i c)) :
    Q s' ↔ ∀ i, fdToIdx s fd = some i → sockaddrInSize ≤ addrlen → ∀ c, Owns s.entries i c →
      P i c := by
  cases h with
  | refused hno => exact ⟨fun _ i hi hlen => absurd hlen (hno i hi), fun _ => hs⟩
  | alone hi hlen hno =>
    refine ⟨fun _ j hj _ c ho => ?_, fun _ => halone _ hno⟩
    obtain rfl := Option.some.inj (hi.symm.trans hj)
    exact absurd ho (hno c)
  | owner hi hlen ho =>
    rw [howner _ _ ho]
    refine ⟨fun hp j hj _ d hd => ?_, fun hall => hall _ hi hlen _ ho⟩
    obtain rfl := Option.some.inj (hi.symm.trans hj)
    obtain rfl := Option.some.inj (ho.2.2.symm.trans hd.2.2)
    exact hp

end

/-! ## The calls -/

theorem OwnersInv.create (h : OwnersInv w) (domain type : Nat) :
    OwnersInv (w.next w.fine (create w.view domain type).1) := by
  unfold Socket.create
  split
  · exact h.stay
  split
  · exact h.stay
  split
  · exact h.stay
  rename_i st _ _ i hi
  have hfree : (w.entries i).active = false := firstEntry_free hi
  cases st with
  | tcp =>
    dsimp only
    cases ho : (openConn w.view.tcp).2 with
    | none =>
      refine h.change _ i (fun j hj => set_ne _ _ hj) (fun j c _ hown => ?_) (.inl (by simp))
      rw [set_tcp]
      exact (openConn_none ho).symm ▸ h.held j c hown
    | some c =>
      obtain ⟨hheld, hact, hkeep⟩ := openConn_held ho
      refine h.change _ i (fun j hj => set_ne _ _ hj) (fun j d _ hown => hkeep d (h.held j d hown))
        (.inr ⟨hfree, c, by simp, hheld, fun j hown => ?_⟩)
      -- an owned connection is active
      exact absurd (h.held j c hown).1 (by simpa [Owners.view] using hact)
  | udp | raw | none =>
    exact h.change _ i (fun j hj => set_ne _ _ hj) (fun j c _ hown => h.held j c hown)
      (.inl (by simp))

theorem OwnersInv.bind (h : OwnersInv w) (fd : Int) (sa : SockAddr) (addrlen : Nat) :
    OwnersInv (w.next w.fine (bind w.view fd sa addrlen).1) := by
  apply (bind_call w.view fd sa addrlen).keeps (Q := fun s => OwnersInv (w.next w.fine s)) h.stay
  · intro i
    exact h.keep _ (set_same ⟨rfl, rfl, rfl⟩) h.held
  · intro i c _
    exact h.keep _ (set_same ⟨rfl, rfl, rfl⟩) fun j d hown => (h.held j d hown).bind _ _

theorem OwnersInv.listen (h : OwnersInv w) (fd : Int) :
    OwnersInv (w.next w.fine (listen w.view fd).1) := by
  unfold Socket.listen
  split
  · exact h.stay
  split
  · exact h.stay
  split
  · exact h.stay
  · exact h.keep _ (fun _ => .refl _) fun j c hown => (h.held j c hown).listen _ _

theorem OwnersInv.connect (h : OwnersInv w) (fd : Int) (sa : SockAddr) (addrlen : Nat) :
    OwnersInv (w.next w.fine (connectBegin w.view fd sa addrlen)) := by
  apply (connectBegin_call w.view fd sa addrlen).keeps (Q :=
    fun s => OwnersInv (w.next w.fine s)) h.stay
  · intro i
    exact h.keep _ (set_same ⟨rfl, rfl, rfl⟩) h.held
  · intro i c _
    exact h.keep _ (set_same ⟨rfl, rfl, rfl⟩) fun j d hown => (h.held j d hown).connectInit _ _ _

theorem OwnersInv.accept (h : OwnersInv w) {fd : Int} (hk : KeepsOwners w (.accept fd early)) :
    OwnersInv (w.next w.fine (acceptOnce w.view fd early)) := by
  unfold acceptOnce
  split
  · exact h.stay
  rename_i i hi
  split
  · rename_i l htype hid
    split
    · rename_i c hscan
      unfold wrapAccepted
      split
      · exact h.stay
      · rename_i j hj
        have hnone := hk i l c hi htype hid hscan (by simp [hj])
        exact h.change _ j (fun k hk => set_ne _ _ hk) (fun k d _ hown => h.held k d hown)
          (.inr ⟨firstEntry_free hj, c, by simp, acceptScan_held hscan, hnone⟩)
    · exact h.stay
  · exact h.stay

theorem OwnersInv.close (h : OwnersInv w) (fd : Int) (how : Leaving) :
    OwnersInv (w.next w.fine (closeEnd w.view fd how)) := by
  unfold closeEnd
  split
  · exact h.stay
  rename_i i hi
  have hact := fdToIdx_active hi
  refine h.change _ i (fun j hj => set_ne _ _ hj) (fun j c hj hown => ?_) (.inl (by simp))
  rw [set_tcp]
  split
  · rename_i d htype hid
    refine how.apply_held (h.held j c hown) fun hcd => hj ?_
    exact h.unique j i c hown ⟨hact, htype, hcd ▸ hid⟩
  · exact h.held j c hown

theorem OwnersInv.autoPort (h : OwnersInv w) (i : Fin 64) :
    OwnersInv (w.next w.fine (autoPort w.view i)) := by
  unfold Socket.autoPort
  split
  · exact h.keep _ (set_same (s := w.view) ⟨rfl, rfl, rfl⟩) h.held
  · exact h.stay

theorem OwnersInv.packet (h : OwnersInv w) (d : Datagram) :
    OwnersInv (w.next w.fine (socketUdpInput w.view d)) := by
  unfold Socket.socketUdpInput
  split
  · exact h.stay
  · exact h.keep _ (set_same ⟨rfl, rfl, rfl⟩) h.held

theorem OwnersInv.udpRead (h : OwnersInv w) (i : Fin 64) (len : Nat) :
    OwnersInv (w.next w.fine (udpRead w.view i len).1) := by
  unfold Socket.udpRead
  split
  · exact h.stay
  · exact h.keep _ (set_same ⟨rfl, rfl, rfl⟩) h.held

theorem OwnersInv.net (h : OwnersInv w) {f : Fine} (ha : netAct a = true)
    (hk : KeepsOwners w (.net a)) (hstep : w.fine.step a = some f) :
    OwnersInv (w.next f { w.view with tcp := f.tcp }) := by
  refine h.keep f (fun _ => .refl _) fun i c hown =>
    (h.held i c hown).step ha (fun now e => ?_) hstep
  subst e
  exact hk i hown

theorem OwnersInv.step {a : SockAct} (h : OwnersInv w) (hk : KeepsOwners w a)
    (hstep : w.step a = some w') : OwnersInv w' := by
  by_cases hn : ∃ b, a = .net b
  · obtain ⟨b, rfl⟩ := hn
    obtain ⟨hb, f, hf, rfl⟩ := step_net hstep
    exact h.net hb hk hf
  · obtain ⟨-, rfl⟩ := step_call (fun b e => hn ⟨b, e⟩) hstep
    cases a with
    | net b => exact absurd ⟨b, rfl⟩ hn
    | create domain type => exact h.create domain type
    | bind fd sa addrlen => exact h.bind fd sa addrlen
    | listen fd => exact h.listen fd
    | accept fd early => exact h.accept hk
    | connect fd sa addrlen => exact h.connect fd sa addrlen
    | close fd how => exact h.close fd how
    | autoPort i => exact h.autoPort i
    | packet d => exact h.packet d
    | udpRead i len => exact h.udpRead i len

theorem ownersInv_inductive : (ownersLTS KeepsOwners).Inductive OwnersInv where
  init w hw := by
    obtain ⟨s, hs, -⟩ := hw
    have he : w.entries = fun _ => zeroEntry := congrArg Sockets.entries hs
    have hno : ∀ i, (w.entries i).active ≠ true := fun i => by simp [he, zeroEntry]
    exact ⟨fun i _ _ hi _ => absurd hi.1 (hno i), fun i hi => absurd hi (hno i),
      fun i _ hi => absurd hi.1 (hno i), fun i _ hi => absurd hi.1 (hno i)⟩
  step _ _ _ h hstep := h.step hstep.1 hstep.2

/-! ## Exclusive ownership -/

/-- A socket loses the connection that is given up. -/
theorem giveUp_breaks {now : UInt64} {j : Fin 64} (hown : Owns w.entries j c)
    (hstep : w.step (.net (.giveUp c now)) = some w') : ¬ Exclusive w' := by
  intro hex
  obtain ⟨-, f, hf, rfl⟩ := step_net hstep
  obtain ⟨-, rfl⟩ := of_guard hf
  obtain ⟨d, hd, hact, -⟩ := hex.2 j hown.1 hown.2.1
  obtain rfl : d = c := Option.some.inj (hd.symm.trans hown.2.2)
  simp [Owners.next] at hact

/-- A second socket for an owned connection. -/
theorem accept_breaks {fd : Int} {j : Fin 64} (hi : fdToIdx w.view fd = some i)
    (ht : (w.entries i).type = .tcp) (hl : (w.entries i).tcpConnId = some l)
    (hscan : acceptScan w.fine.tcp l early = some c) (hfree : firstEntry w.view ≠ none)
    (hown : Owns w.entries j c) (hstep : w.step (.accept fd early) = some w') : ¬ Exclusive w' := by
  intro hex
  obtain ⟨-, rfl⟩ := step_call (a := .accept fd early) nofun hstep
  obtain ⟨k, hk⟩ := Option.ne_none_iff_exists'.mp hfree
  have hkj : j ≠ k := by
    rintro rfl
    exact absurd hown.1 (by simpa [Owners.view] using firstEntry_free hk)
  have ht' : (w.view.entries i).type = .tcp := ht
  have hl' : (w.view.entries i).tcpConnId = some l := hl
  have hscan' : acceptScan w.view.tcp l early = some c := hscan
  have he : (w.next w.fine (sockCall w.view (.accept fd early))).entries =
      (wrapAccepted w.view i c).1.entries := by
    simp only [Owners.next, sockCall, acceptOnce, hi, ht', hl', hscan']
  have hne := hex.1 k j hkj.symm
  simp only [he, wrapAccepted, hk, Sockets.set, Function.update_of_ne hkj, Function.update_self]
    at hne
  exact hne trivial trivial hown.1 hown.2.1 hown.2.2.symm

theorem ownership_iff (hw : (ownersLTS KeepsOwners).Reachable w) :
    Exclusive w ∧ ∀ a w', w.step a = some w' → (Exclusive w' ↔ KeepsOwners w a) := by
  have hinv := ownersInv_inductive.reachable w hw
  refine ⟨hinv.exclusive, fun a w' hstep =>
    ⟨fun hex => ?_, fun hk => (hinv.step hk hstep).exclusive⟩⟩
  cases a with
  | net b =>
    cases b with
    | giveUp c now => exact fun j hown => giveUp_breaks hown hstep hex
    | _ => trivial
  | accept fd early =>
    exact fun i l c hi ht hl hscan hfree j hown => accept_breaks hi ht hl hscan hfree hown hstep hex
  | _ => trivial

end

/-! ### One client, accepted twice -/

def bootOwners : Owners :=
  ⟨bootFine, bootSockets.entries, bootSockets.nextUdpPort, fun _ => 0, fun _ => 0⟩

/-- A server on port 80, fd 100. -/
def serving : Sockets :=
  (listen (bind (create bootSockets afInet sockStream).1 100 ⟨80, 0⟩ sockaddrInSize).1 100).1

/-- The SYN and the ACK of one client. -/
def clientPolls : Polled :=
  .cons (clientSeg 0x0A000203 7000 0 tcpSyn []) (sentAt 0)
    (.cons (clientSeg 0x0A000203 7001 1001 tcpAck []) (sentAt 0) .nil)

/-- The client is connected and accepted once. -/
def servingOne : Sockets :=
  (accept { serving with tcp := pollSegs serving.tcp clientPolls } 100 []).1

theorem boot_idle : bootOwners.Idle := ⟨rfl, rfl⟩

theorem servingOne_steps : Steps bootOwners servingOne none none := by
  refine (create_steps boot_idle afInet sockStream).trans fun w hw hs hf => ?_
  refine (bind_steps ⟨hs, hf⟩ 100 ⟨80, 0⟩ sockaddrInSize).trans fun w hw' hs hf => ?_
  refine (listen_steps ⟨hs, hf⟩ 100).trans fun w hw'' hs hf => ?_
  have hsrv : w.view = serving := by rw [hw'', hw', hw]; rfl
  refine (Owners.Idle.inner ⟨hs, hf⟩ (pollSegs_inner w.fine clientPolls)).trans fun v hv hs hf => ?_
  have hres := accept_steps (w := v) ⟨hs, hf⟩ 100 []
  have htcp : w.fine.tcp = serving.tcp := congrArg Sockets.tcp hsrv
  rw [hv, hsrv, htcp] at hres
  exact hres

theorem Steps.reachable {w : Owners} {s : Sockets} {snd : Option (Slot × List UInt8)}
    {fl : Option Flight} (h : Steps w s snd fl) (hG : ∀ w a, Coded w a → G w a)
    (hw : (ownersLTS G).Reachable w) : ∃ w', (ownersLTS G).Reachable w' ∧ w'.view = s := by
  obtain ⟨w', hsteps, hs, -⟩ := h
  refine ⟨w', ?_, hs⟩
  clear hs
  induction hsteps with
  | refl => exact hw
  | tail _ hstep ih =>
    obtain ⟨a, hcode, ha⟩ := hstep
    exact ih.step ⟨hG _ a hcode, ha⟩

theorem boot_reachable (G : Owners → SockAct → Prop) : (ownersLTS G).Reachable bootOwners :=
  ⟨bootOwners, [], ⟨bootSockets, rfl, rfl⟩, .nil _⟩

/-- The second `accept` returns the connection of the first: the sockets 101 and
102 share it. -/
theorem accept_shares_connection : ∃ w, (ownersLTS fun _ _ => True).Reachable w ∧
    w.view = (accept servingOne 100 []).1 ∧ (accept servingOne 100 []).2 = 102 ∧
    (w.entries 1).tcpConnId = some 1 ∧ (w.entries 2).tcpConnId = some 1 ∧ ¬ Exclusive w := by
  have hsteps : Steps bootOwners (accept servingOne 100 []).1 none none :=
    servingOne_steps.trans fun w hw hs hf => hw ▸ accept_steps ⟨hs, hf⟩ 100 []
  obtain ⟨w, hw, hview⟩ := hsteps.reachable (fun _ _ _ => trivial) (boot_reachable _)
  have he : w.entries = (accept servingOne 100 []).1.entries := congrArg Sockets.entries hview
  have hfd : (accept servingOne 100 []).2 = 102 := by decide +kernel
  have hids : ∀ i ∈ [(1 : Fin 64), 2], ((w.entries i).active, (w.entries i).type,
      (w.entries i).tcpConnId) = (true, SockType.tcp, some 1) := by
    rw [he]
    decide +kernel
  simp only [List.mem_cons, List.not_mem_nil, or_false, forall_eq_or_imp, forall_eq,
    Prod.mk.injEq] at hids
  obtain ⟨⟨ha, ht, hc⟩, ha', ht', hc'⟩ := hids
  exact ⟨w, hw, hview, hfd, hc, hc',
    fun hex => hex.1 1 2 (by decide) ha ht ha' ht' (hc.trans hc'.symm)⟩

/-- The steps that need no condition. -/
def harmless : SockAct → Bool
  | .net (.giveUp _ _) | .accept _ _ => false
  | _ => true

def Owners.runIf (G : Owners → SockAct → Prop) [∀ w a, Decidable (G w a)] :
    Owners → List SockAct → Option Owners
  | w, [] => some w
  | w, a :: as => if G w a then (w.step a).bind fun w' => w'.runIf G as else none

theorem Owners.runIf_reachable {G' : Owners → SockAct → Prop} [∀ w a, Decidable (G w a)]
    {w w' : Owners} {as : List SockAct} (hG : ∀ w a, G w a → G' w a)
    (hw : (ownersLTS G').Reachable w) (h : w.runIf G as = some w') :
    (ownersLTS G').Reachable w' := by
  induction as generalizing w with
  | nil => exact Option.some.inj h ▸ hw
  | cons a as ih =>
    obtain ⟨ha, hs⟩ := Option.ite_none_right_eq_some.mp h
    obtain ⟨v, hv, hrest⟩ := Option.bind_eq_some_iff.mp hs
    exact ih (hw.step ⟨hG _ a ha, hv⟩) hrest

theorem harmless_keeps (w : Owners) (a : SockAct) (h : harmless a = true) : KeepsOwners w a := by
  unfold KeepsOwners
  split <;> trivial

/-- The client is connected but not accepted yet. -/
def connected : List SockAct :=
  [.create afInet sockStream, .bind 100 ⟨80, 0⟩ sockaddrInSize, .listen 100,
   .net (.passive 1 (clientSeg 0x0A000203 7000 0 tcpSyn [])), .net (.synAck 1),
   .net (.segment 1 (clientSeg 0x0A000203 7001 1001 tcpAck []))]

/-- The first `accept` meets the condition, and its socket owns connection 1. -/
theorem ownership_accepted : ∃ w w', w.step (.accept 100 true) = some w' ∧
    (w'.entries 1).tcpConnId = some 1 ∧ KeepsOwners w (.accept 100 true) ∧ Exclusive w ∧
      Exclusive w' := by
  have h : ((bootOwners.runIf (fun _ a => harmless a = true) connected).map fun w =>
      (fdToIdx w.view 100, (w.entries 0).tcpConnId,
      acceptScan w.fine.tcp 0 true, (w.step (.accept 100 true)).map fun w' =>
        (w'.entries 1).tcpConnId,
      decide (∀ j, (w.entries j).tcpConnId ≠ some 1))) =
      some (some 0, some 0, some 1, some (some 1), true) := by decide +kernel
  obtain ⟨w, hrun, hfacts⟩ := Option.map_eq_some_iff.mp h
  simp only [Prod.mk.injEq, decide_eq_true_eq, Option.map_eq_some_iff] at hfacts
  obtain ⟨hfd, hl, hscan, ⟨w', hstep, hid⟩, hnone⟩ := hfacts
  have hk : KeepsOwners w (.accept 100 true) := by
    intro i l c hi _ hil hc _ j hown
    obtain rfl : 0 = i := Option.some.inj (hfd.symm.trans hi)
    obtain rfl : 0 = l := Option.some.inj (hl.symm.trans hil)
    obtain rfl : 1 = c := Option.some.inj (hscan.symm.trans hc)
    exact hnone j hown.2.2
  obtain ⟨hex, hiff⟩ :=
    ownership_iff (Owners.runIf_reachable harmless_keeps (boot_reachable _) hrun)
  exact ⟨w, w', hstep, hid, hk, hex, (hiff _ _ hstep).mpr hk⟩

end HackersOs.L3.Socket
