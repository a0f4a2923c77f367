import HackersOs.Core.LTS
import HackersOs.L3Net.Dhcp

/-!
# Two clients on one segment

Every frame is broadcast and may arrive at any time, any number of times or
never. The server is not ours; it is honest: it never offers one address to two
hardware addresses, its replies carry the transaction and the hardware address
of the request, and it acknowledges only what it offered to that hardware
address.

Both machines boot with the same transaction number and `receive_dhcp` does not
look at the hardware address, so a client takes the other's ACK. That is all
that can go wrong (`leases_iff`); `both_bound` runs it.
-/
namespace HackersOs.L3.Dhcp
open HackersOs.Core Net

variable {G : Lan → LanAct → Prop} {len : Nat} {offers : List (MacAddr × UInt32)}

structure Lan where
  client : Fin 2 → Client
  /-- what was broadcast -/
  air : List (List UInt8)
  /-- the addresses the server offered, and to whom -/
  offers : List (MacAddr × UInt32)

/-- What a packet says, whatever stood in the buffer before. -/
def Says (frame : List UInt8) (op msgType : UInt8) (xid : UInt32) (mac : MacAddr) : Prop :=
  ∀ buf, ∃ p : Packet, p = (fun i => received buf frame (42 + i)) ∧ p.op = op ∧ p.xid = xid ∧
    p.chaddr = mac ∧ (findOption p 53).map p.option = some msgType

def Gives (frame : List UInt8) (ip : UInt32) : Prop :=
  ∀ buf, Packet.yiaddr (fun i => received buf frame (42 + i)) = ip

inductive LanAct where
  | discover (i : Fin 2)
  /-- `VirtioNet::receive` over the given buffer -/
  | deliver (i : Fin 2) (frame : List UInt8) (buf : Frame)
  | fail (i : Fin 2)
  | offer (req reply : List UInt8) (xid : UInt32) (mac : MacAddr) (ip : UInt32)
  | ack (req reply : List UInt8) (xid : UInt32) (mac : MacAddr) (ip : UInt32)

def Lan.set (s : Lan) (i : Fin 2) (c : Client) (sent : List (List UInt8)) : Lan :=
  { s with client := Function.update s.client i c, air := s.air ++ sent }

def Lan.step (s : Lan) : LanAct → Lan → Prop
  | .discover i, s' => ((s.client i).phase = .idle ∨ (s.client i).phase = .failed) ∧
      s' = s.set i (s.client i).discover.1 [(s.client i).discover.2]
  | .deliver i frame buf, s' => frame ∈ s.air ∧
      s' = s.set i ((s.client i).receive (received buf frame) (receivedLen frame)).1
        ((s.client i).receive (received buf frame) (receivedLen frame)).2.toList
  | .fail i, s' => ((s.client i).phase = .waitOffer ∨ (s.client i).phase = .waitAck) ∧
      s' = s.set i (s.client i).fail []
  | .offer req reply xid mac ip, s' => req ∈ s.air ∧ Says req 1 dhcpDiscover xid mac ∧
      Says reply 2 dhcpOffer xid mac ∧ Gives reply ip ∧ (∀ m, (m, ip) ∈ s.offers → m = mac) ∧
      s' = { s with air := s.air ++ [reply], offers := s.offers ++ [(mac, ip)] }
  | .ack req reply xid mac ip, s' => req ∈ s.air ∧ Says req 1 dhcpRequest xid mac ∧
      Says reply 2 dhcpAck xid mac ∧ Gives reply ip ∧ (mac, ip) ∈ s.offers ∧
      s' = { s with air := s.air ++ [reply] }

/-- Different machines have different addresses, each one the server gave it. -/
def Leased (s : Lan) : Prop :=
  (∀ i j, i ≠ j → (s.client i).phase = .bound → (s.client j).phase = .bound →
    (s.client i).config.localIp ≠ (s.client j).config.localIp) ∧
  ∀ i, (s.client i).phase = .bound → ((s.client i).mac, (s.client i).config.localIp) ∈ s.offers

/-- An ACK that a client takes carries the client's hardware address. -/
def OwnAck (s : Lan) : LanAct → Prop
  | .deliver i frame buf => (s.client i).phase = .waitAck →
      (dhcpAccept dhcpAck (s.client i).xid (received buf frame) (receivedLen frame)).isSome →
      Packet.chaddr (fun j => received buf frame (42 + j)) = (s.client i).mac
  | _ => True

def lanLTS (G : Lan → LanAct → Prop) : LTS Lan LanAct where
  init s := (∀ i j, (s.client i).mac = (s.client j).mac → i = j) ∧ (∀ i, (s.client i).Boot) ∧
    s.air = [] ∧ s.offers = []
  step s a s' := G s a ∧ s.step a s'

/-! ## The invariant -/

/-- A frame in the air is a request, or a reply that says what the server offered. -/
def Honest (offers : List (MacAddr × UInt32)) (frame : List UInt8) : Prop :=
  (∀ buf, Packet.op (fun i => received buf frame (42 + i)) = 1) ∨
  ∃ mac ip, (∀ buf, Packet.chaddr (fun i => received buf frame (42 + i)) = mac) ∧ Gives frame ip ∧
    (mac, ip) ∈ offers

structure LanInv (s : Lan) : Prop where
  macs : ∀ i j, (s.client i).mac = (s.client j).mac → i = j
  offers : ∀ m m' ip, (m, ip) ∈ s.offers → (m', ip) ∈ s.offers → m = m'
  air : ∀ frame ∈ s.air, Honest s.offers frame
  bound : ∀ i, (s.client i).phase = .bound →
    ((s.client i).mac, (s.client i).config.localIp) ∈ s.offers

section
variable {s s' : Lan} {i : Fin 2} {frame reply : List UInt8} {buf : Frame}

theorem LanInv.leased (h : LanInv s) : Leased s := by
  refine ⟨fun i j hij hi hj he => ?_, h.bound⟩
  exact hij (h.macs i j (h.offers _ _ _ (h.bound i hi) (he ▸ h.bound j hj)))

theorem Honest.mono (h : Honest offers frame) (more : List (MacAddr × UInt32)) :
    Honest (offers ++ more) frame := by
  rcases h with hop | ⟨mac, ip, hmac, hip, hmem⟩
  · exact .inl hop
  · exact .inr ⟨mac, ip, hmac, hip, List.mem_append_left _ hmem⟩

theorem honest_dhcpFrame (offers : List (MacAddr × UInt32)) (mac : MacAddr) (xid : UInt32) (t : UInt8)
    (server requested : UInt32) : Honest offers (dhcpFrame mac xid t server requested) := by
  refine .inl fun buf => ?_
  obtain ⟨p, rfl, hop, -⟩ := dhcpFrame_fields buf mac xid t server requested
  exact hop

theorem Says.honest {t : UInt8} {xid : UInt32} {mac : MacAddr} {ip : UInt32}
    (h : Says reply 2 t xid mac) (hip : Gives reply ip) (hmem : (mac, ip) ∈ offers) :
    Honest offers reply := by
  refine .inr ⟨mac, ip, fun buf => ?_, hip, hmem⟩
  obtain ⟨p, rfl, -, -, hmac, -⟩ := h buf
  exact hmac

/-- A frame that passes the checks is the server's, and gives an address it
offered to the hardware address in the frame. -/
theorem Honest.accepted {t : UInt8} {xid : UInt32} {p : Packet} (h : Honest offers frame)
    (ha : dhcpAccept t xid (received buf frame) len = some p) : (p.chaddr, p.yiaddr) ∈ offers := by
  obtain ⟨rfl, -, -, -, hop, -⟩ := dhcpAccept_some ha
  rcases h with hreq | ⟨mac, ip, hmac, hip, hmem⟩
  · rw [hreq buf] at hop
    exact absurd hop (by decide)
  · rw [hmac buf, hip buf]
    exact hmem

/-! ## Steps -/

theorem receive_mac (c : Client) (buf : Frame) (len : Nat) : (c.receive buf len).1.mac = c.mac := by
  unfold Client.receive
  split
  · split <;> rfl
  · split <;> rfl
  · rfl

/-- What a client sends is a request. -/
theorem receive_sent {c : Client} (h : frame ∈ (c.receive buf len).2.toList) :
    ∃ mac xid t server requested, frame = dhcpFrame mac xid t server requested := by
  unfold Client.receive at h
  split at h
  · split at h
    · simp at h
    · simp only [Option.toList_some, List.mem_singleton] at h
      exact ⟨_, _, _, _, _, h⟩
  · split at h <;> simp at h
  · simp at h

/-- A client is bound because it was, or by an ACK. -/
theorem receive_bound {c : Client} (h : (c.receive buf len).1.phase = .bound) :
    c.phase = .bound ∧ (c.receive buf len).1 = c ∨
    c.phase = .waitAck ∧ ∃ p, dhcpAccept dhcpAck c.xid buf len = some p ∧
      (c.receive buf len).1.config.localIp = p.yiaddr := by
  unfold Client.receive at h ⊢
  cases hp : c.phase with
  | waitOffer =>
    simp only [hp] at h ⊢
    split at h
    · exact absurd (hp.symm.trans h) (by decide)
    · simp at h
  | waitAck =>
    simp only [hp] at h ⊢
    split at h
    · exact absurd (hp.symm.trans h) (by decide)
    · rename_i p hacc
      exact .inr ⟨trivial, p, hacc, rfl⟩
  | idle | failed => exact absurd (hp.symm.trans (by simpa only [hp] using h)) (by decide)
  | bound => exact .inl ⟨rfl, rfl⟩

/-- The machine of one client changes and sends requests only; if it becomes
bound, with an address that was offered to it. -/
theorem LanInv.set (h : LanInv s) (i : Fin 2) {c : Client} {sent : List (List UInt8)}
    (hmac : c.mac = (s.client i).mac) (hsent : ∀ frame ∈ sent, Honest s.offers frame)
    (hbound : c.phase = .bound → (c.mac, c.config.localIp) ∈ s.offers) : LanInv (s.set i c sent) := by
  have hmacs : ∀ j, ((s.set i c sent).client j).mac = (s.client j).mac := fun j => by
    by_cases hj : j = i
    · subst hj
      simpa [Lan.set] using hmac
    · simp [Lan.set, hj]
  refine ⟨fun j k => ?_, h.offers, fun frame hf => ?_, fun j hj => ?_⟩
  · rw [hmacs, hmacs]
    exact h.macs j k
  · rcases List.mem_append.mp hf with hf | hf
    · exact h.air frame hf
    · exact hsent frame hf
  · by_cases hji : j = i
    · subst hji
      simp only [Lan.set, Function.update_self] at hj ⊢
      exact hbound hj
    · simp only [Lan.set, Function.update_of_ne hji] at hj ⊢
      exact h.bound j hj

theorem LanInv.deliver (h : LanInv s) (hf : frame ∈ s.air) (hown : OwnAck s (.deliver i frame buf)) :
    LanInv (s.set i ((s.client i).receive (received buf frame) (receivedLen frame)).1
      ((s.client i).receive (received buf frame) (receivedLen frame)).2.toList) := by
  refine h.set i (receive_mac _ _ _) (fun req hreq => ?_) fun hb => ?_
  · obtain ⟨_, _, _, _, _, rfl⟩ := receive_sent hreq
    exact honest_dhcpFrame _ _ _ _ _ _
  rw [receive_mac]
  rcases receive_bound hb with ⟨hb', he⟩ | ⟨hwait, p, hacc, hip⟩
  · rw [he]
    exact h.bound i hb'
  have hmem := (h.air frame hf).accepted hacc
  have hmac := hown hwait (by rw [hacc]; rfl)
  obtain ⟨rfl, -⟩ := dhcpAccept_some hacc
  rw [hip]
  rwa [hmac] at hmem

theorem LanInv.step {a : LanAct} (h : LanInv s) (hown : OwnAck s a) (hstep : s.step a s') :
    LanInv s' := by
  cases a with
  | discover i =>
    obtain ⟨-, rfl⟩ := hstep
    refine h.set i rfl (fun frame hf => ?_) fun hb => by simp [Client.discover] at hb
    rw [List.mem_singleton.mp hf]
    exact honest_dhcpFrame _ _ _ _ _ _
  | deliver i frame buf =>
    obtain ⟨hf, rfl⟩ := hstep
    exact h.deliver hf hown
  | fail i =>
    obtain ⟨-, rfl⟩ := hstep
    exact h.set i rfl (fun _ hf => absurd hf List.not_mem_nil) fun hb => by simp [Client.fail] at hb
  | offer req reply xid mac ip =>
    obtain ⟨-, -, hsays, hgives, hfresh, rfl⟩ := hstep
    refine ⟨h.macs, fun m m' a hm hm' => ?_, fun frame hf => ?_, fun i hi => ?_⟩
    · simp only [List.mem_append, List.mem_singleton, Prod.mk.injEq] at hm hm'
      rcases hm with hm | ⟨rfl, rfl⟩ <;> rcases hm' with hm' | ⟨rfl, rfl'⟩
      · exact h.offers m m' a hm hm'
      · subst rfl'
        exact hfresh m hm
      · exact (hfresh m' hm').symm
      · rfl
    · rcases List.mem_append.mp hf with hf | hf
      · exact (h.air frame hf).mono _
      · rw [List.mem_singleton.mp hf]
        exact hsays.honest hgives (List.mem_append_right _ (List.mem_singleton_self _))
    · exact List.mem_append_left _ (h.bound i hi)
  | ack req reply xid mac ip =>
    obtain ⟨-, -, hsays, hgives, hmem, rfl⟩ := hstep
    refine ⟨h.macs, h.offers, fun frame hf => ?_, h.bound⟩
    rcases List.mem_append.mp hf with hf | hf
    · exact h.air frame hf
    · rw [List.mem_singleton.mp hf]
      exact hsays.honest hgives hmem

theorem lanInv_inductive : (lanLTS OwnAck).Inductive LanInv where
  init s hs := by
    obtain ⟨hmacs, hboot, hair, hoffers⟩ := hs
    refine ⟨hmacs, fun m m' ip hm => ?_, fun frame hf => ?_, fun i hi => ?_⟩
    · simp [hoffers] at hm
    · simp [hair] at hf
    · exact absurd ((hboot i).2.symm.trans hi) (by decide)
  step _ _ _ h hstep := h.step hstep.1 hstep.2

/-- The only step that breaks the leases is an ACK for the other client. -/
theorem leases_iff (hs : (lanLTS OwnAck).Reachable s) :
    Leased s ∧ ∀ a s', s.step a s' → (Leased s' ↔ OwnAck s a) := by
  have hinv := lanInv_inductive.reachable s hs
  refine ⟨hinv.leased, fun a s' hstep => ⟨fun hl => ?_, fun hown => (hinv.step hown hstep).leased⟩⟩
  cases a with
  | deliver i frame buf =>
    obtain ⟨hf, rfl⟩ := hstep
    intro hwait hacc
    obtain ⟨p, hp⟩ := Option.isSome_iff_exists.mp hacc
    have hmem := (hinv.air frame hf).accepted hp
    have hrec : ((s.client i).receive (received buf frame) (receivedLen frame)).1 =
        { s.client i with phase := .bound, config := (s.client i).config.ofAck p } := by
      simp only [Client.receive, hwait, hp]
    have hmine := hl.2 i
    simp only [Lan.set, Function.update_self, hrec] at hmine
    obtain ⟨rfl, -⟩ := dhcpAccept_some hp
    exact hinv.offers _ _ _ hmem (hmine trivial)
  | discover | fail | offer | ack => trivial

end

/-! ## The other's ACK -/

section
variable {c : Client} {serverMac mac : MacAddr} {serverIp ip : UInt32}

theorem says_dhcpFrame (mac : MacAddr) (xid : UInt32) (t : UInt8) (server requested : UInt32) :
    Says (dhcpFrame mac xid t server requested) 1 t xid mac :=
  fun buf => dhcpFrame_fields buf mac xid t server requested

theorem says_replyFrame (serverMac mac : MacAddr) (serverIp xid ip : UInt32) (t : UInt8) :
    Says (replyFrame serverMac serverIp t xid ip mac) 2 t xid mac := fun buf => by
  obtain ⟨f, rfl, -, -, p, hp, hop, hxid, -, hmac, -, htype⟩ :=
    replyFrame_fields buf serverMac mac serverIp xid ip t
  exact ⟨p, hp, hop, hxid, hmac, htype⟩

theorem gives_replyFrame (serverMac mac : MacAddr) (serverIp xid ip : UInt32) (t : UInt8) :
    Gives (replyFrame serverMac serverIp t xid ip mac) ip := fun buf => by
  obtain ⟨f, rfl, -, -, p, rfl, -, -, hyi, -⟩ := replyFrame_fields buf serverMac mac serverIp xid ip t
  exact hyi

/-- A waiting client takes any OFFER of its transaction. -/
theorem receive_offer (buf : Frame) (hc : c.phase = .waitOffer) :
    ∃ server, c.receive (received buf (replyFrame serverMac serverIp dhcpOffer c.xid ip mac))
        (receivedLen (replyFrame serverMac serverIp dhcpOffer c.xid ip mac)) =
      ({ c with phase := .waitAck }, some (dhcpFrame c.mac c.xid dhcpRequest server ip)) := by
  obtain ⟨p, hp, hip, -⟩ := dhcpAccept_reply buf serverMac mac serverIp c.xid ip dhcpOffer
  refine ⟨serverId p, ?_⟩
  simp only [Client.receive, hc, hp, hip]

theorem receive_ack (buf : Frame) (hc : c.phase = .waitAck) :
    ∃ config : Config, config.localIp = ip ∧
      c.receive (received buf (replyFrame serverMac serverIp dhcpAck c.xid ip mac))
        (receivedLen (replyFrame serverMac serverIp dhcpAck c.xid ip mac)) =
      ({ c with phase := .bound, config := config }, none) := by
  obtain ⟨p, hp, hip, -⟩ := dhcpAccept_reply buf serverMac mac serverIp c.xid ip dhcpAck
  refine ⟨c.config.ofAck p, hip, ?_⟩
  simp only [Client.receive, hc, hp]

end

def macA : MacAddr := #v[0x52, 0x54, 0, 0, 0, 1]
def macB : MacAddr := #v[0x52, 0x54, 0, 0, 0, 2]
def macServer : MacAddr := #v[0x52, 0x55, 0, 0, 0, 9]

/-- Power-on: no address yet. -/
def bootClient (mac : MacAddr) : Client := ⟨mac, 0x12345678, .idle, ⟨0, 0, 0, 0⟩⟩

def macOf (i : Fin 2) : MacAddr := if i = 0 then macA else macB

def bootLan : Lan := ⟨fun i => bootClient (macOf i), [], []⟩

/-- The transaction of both. -/
def bootXid : UInt32 := 0x12345679

def ipA : UInt32 := 0x0F02000A
def ipB : UInt32 := 0x1002000A
def ipServer : UInt32 := 0x0202000A

def ipOf (i : Fin 2) : UInt32 := if i = 0 then ipA else ipB

def reply (msgType : UInt8) (i : Fin 2) : List UInt8 :=
  replyFrame macServer ipServer msgType bootXid (ipOf i) (macOf i)

theorem bootLan_reachable (G : Lan → LanAct → Prop) : (lanLTS G).Reachable bootLan := by
  refine ⟨bootLan, [], ⟨?_, fun i => ⟨rfl, rfl⟩, rfl, rfl⟩, .nil _⟩
  decide

/-- The two clients in a phase of their boot transaction. -/
def clientsIn (phase : Phase) : Fin 2 → Client := fun i => ⟨macOf i, bootXid, phase, ⟨0, 0, 0, 0⟩⟩

def discoverFrame (i : Fin 2) : List UInt8 := dhcpFrame (macOf i) bootXid dhcpDiscover 0 0

/-- Both have sent a DISCOVER and the server has answered. -/
def offered : Lan where
  client := clientsIn .waitOffer
  air := [discoverFrame 0, discoverFrame 1, reply dhcpOffer 0, reply dhcpOffer 1]
  offers := [(macA, ipA), (macB, ipB)]

/-- A condition that only ACKs can miss. -/
def OnlyAcks (G : Lan → LanAct → Prop) : Prop :=
  ∀ s a, (∀ i frame buf, a = .deliver i frame buf → (s.client i).phase ≠ .waitAck) → G s a

theorem update_two {β : Type} (f : Fin 2 → β) (x y : β) (g : Fin 2 → β) (h0 : g 0 = x)
    (h1 : g 1 = y) : Function.update (Function.update f 0 x) 1 y = g := by
  funext i
  match i with
  | 0 => simp [h0]
  | 1 => simp [h1]

theorem discover_boot (i : Fin 2) :
    (bootClient (macOf i)).discover = (clientsIn .waitOffer i, discoverFrame i) := by
  have hxid : (0x12345678 : UInt32) + 1 = bootXid := by decide
  simp only [Client.discover, bootClient, hxid, clientsIn, discoverFrame]

theorem discovered_reachable (hG : OnlyAcks G) :
    (lanLTS G).Reachable ⟨clientsIn .waitOffer, [discoverFrame 0, discoverFrame 1], []⟩ := by
  have h1 := (bootLan_reachable G).step (l := .discover 0) ⟨hG _ _ nofun, .inl rfl, rfl⟩
  refine h1.step (l := .discover 1) ⟨hG _ _ nofun, .inl rfl, ?_⟩
  have hclients : Function.update (Function.update bootLan.client 0 (clientsIn .waitOffer 0)) 1
      (clientsIn .waitOffer 1) = clientsIn .waitOffer := update_two _ _ _ _ rfl rfl
  simp only [Lan.set, bootLan, discover_boot, Function.update_of_ne (show (1 : Fin 2) ≠ 0 by decide),
    List.nil_append, List.cons_append]
  exact congrArg (fun cs => Lan.mk cs _ _) hclients.symm

theorem offered_reachable (hG : OnlyAcks G) : (lanLTS G).Reachable offered := by
  have h3 := (discovered_reachable hG).step
    (l := .offer (discoverFrame 0) (reply dhcpOffer 0) bootXid macA ipA)
    ⟨hG _ _ nofun, by simp, says_dhcpFrame _ _ _ _ _, says_replyFrame _ _ _ _ _ _,
      gives_replyFrame _ _ _ _ _ _, nofun, rfl⟩
  refine h3.step (l := .offer (discoverFrame 1) (reply dhcpOffer 1) bootXid macB ipB)
    ⟨hG _ _ nofun, by simp, says_dhcpFrame _ _ _ _ _, says_replyFrame _ _ _ _ _ _,
      gives_replyFrame _ _ _ _ _ _, fun m hm => ?_, rfl⟩
  exact absurd hm (by simp [ipA, ipB])

theorem deliver_reachable {s : Lan} {i : Fin 2} {frame : List UInt8} {c : Client}
    {sent : Option (List UInt8)} (h : (lanLTS G).Reachable s) (buf : Frame)
    (hg : G s (.deliver i frame buf)) (hf : frame ∈ s.air)
    (hrec : (s.client i).receive (received buf frame) (receivedLen frame) = (c, sent)) :
    (lanLTS G).Reachable (s.set i c sent.toList) :=
  h.step (l := .deliver i frame buf) ⟨hg, hf, by rw [hrec]⟩

def requestFrame (server : UInt32) (i : Fin 2) : List UInt8 :=
  dhcpFrame (macOf i) bootXid dhcpRequest server (ipOf i)

/-- Both have taken their OFFER and wait for an ACK; the first one's is sent. -/
def acked (sA sB : UInt32) : Lan where
  client := clientsIn .waitAck
  air := offered.air ++ [requestFrame sA 0] ++ [requestFrame sB 1] ++ [reply dhcpAck 0]
  offers := offered.offers

theorem acked_reachable (hG : OnlyAcks G) : ∃ sA sB, (lanLTS G).Reachable (acked sA sB) := by
  have hoffer : ∀ i, ∃ server,
      (clientsIn .waitOffer i).receive (received (fun _ => 0) (reply dhcpOffer i))
      (receivedLen (reply dhcpOffer i)) = (clientsIn .waitAck i, some (requestFrame server i)) :=
    fun i => receive_offer (c := clientsIn .waitOffer i) _ rfl
  obtain ⟨sA, hA⟩ := hoffer 0
  obtain ⟨sB, hB⟩ := hoffer 1
  have h5 := deliver_reachable (i := 0) (offered_reachable hG) (fun _ => 0)
    (hG _ _ fun i _ _ _ => by simp [offered, clientsIn]) (by simp [offered]) hA
  have hone : (offered.set 0 (clientsIn .waitAck 0) [requestFrame sA 0]).client 1 =
      clientsIn .waitOffer 1 := by
    simp [Lan.set, offered]
  have h6 := deliver_reachable (i := 1) h5 (fun _ => 0)
    (hG _ _ fun i _ _ e => by
      obtain ⟨rfl, -⟩ := LanAct.deliver.inj e
      rw [Option.toList_some, hone]
      simp [clientsIn]) (by simp [Lan.set, offered]) (hone ▸ hB)
  have h7 := h6.step (l := .ack (requestFrame sA 0) (reply dhcpAck 0) bootXid macA ipA)
    ⟨hG _ _ nofun, by simp [Lan.set], says_dhcpFrame _ _ _ _ _, says_replyFrame _ _ _ _ _ _,
      gives_replyFrame _ _ _ _ _ _, by simp [Lan.set, offered], rfl⟩
  have hclients : Function.update (Function.update offered.client 0 (clientsIn .waitAck 0)) 1
      (clientsIn .waitAck 1) = clientsIn .waitAck := update_two _ _ _ _ rfl rfl
  refine ⟨sA, sB, ?_⟩
  simp only [Lan.set, Option.toList_some, hclients] at h7
  exact h7

/-- Both machines take the ACK of the first. -/
theorem both_bound : ∃ s, (lanLTS fun _ _ => True).Reachable s ∧
    (∀ i, (s.client i).phase = .bound ∧ (s.client i).config.localIp = ipA) ∧ ¬ Leased s := by
  obtain ⟨sA, sB, h7⟩ := acked_reachable (G := fun _ _ => True) fun _ _ _ => trivial
  have hack : ∀ i, ∃ config : Config, config.localIp = ipA ∧
      (clientsIn .waitAck i).receive (received (fun _ => 0) (reply dhcpAck 0))
        (receivedLen (reply dhcpAck 0)) =
        ({ clientsIn .waitAck i with phase := .bound, config := config }, none) :=
    fun i => receive_ack (c := clientsIn .waitAck i) _ rfl
  obtain ⟨cA, hcA, hA⟩ := hack 0
  obtain ⟨cB, hcB, hB⟩ := hack 1
  have h8 := deliver_reachable (i := 0) h7 (fun _ => 0) trivial (by simp [acked]) hA
  have hone : ((acked sA sB).set 0 { clientsIn .waitAck 0 with phase := .bound, config := cA }
      []).client 1 =
      clientsIn .waitAck 1 := by
    simp [Lan.set, acked]
  have h9 := deliver_reachable (i := 1) h8 (fun _ => 0) trivial (by simp [Lan.set, acked]) (hone ▸ hB)
  refine ⟨_, h9, ?_, fun hl => ?_⟩
  · rw [Fin.forall_fin_two]
    simp [Lan.set, hcA, hcB]
  · refine hl.1 0 1 (by decide) ?_ ?_ ?_ <;> simp [Lan.set, hcA, hcB]

/-- The first machine takes its own ACK. -/
theorem leases_first_bound : ∃ s a s', s.step a s' ∧ OwnAck s a ∧ (s'.client 0).phase = .bound ∧
    (s'.client 0).config.localIp = ipA ∧ Leased s ∧ Leased s' := by
  have hG : OnlyAcks OwnAck := fun s a ha => by
    cases a with
    | deliver i frame buf => exact fun hw => absurd hw (ha i frame buf rfl)
    | discover | fail | offer | ack => trivial
  obtain ⟨sA, sB, h7⟩ := acked_reachable hG
  obtain ⟨hleased, hiff⟩ := leases_iff h7
  obtain ⟨cA, hcA, hA⟩ : ∃ config : Config, config.localIp = ipA ∧
      (clientsIn .waitAck 0).receive (received (fun _ => 0) (reply dhcpAck 0))
        (receivedLen (reply dhcpAck 0)) =
        ({ clientsIn .waitAck 0 with phase := .bound, config := config }, none) :=
    receive_ack (c := clientsIn .waitAck 0) _ rfl
  have hstep : (acked sA sB).step (.deliver 0 (reply dhcpAck 0) fun _ => 0)
      ((acked sA sB).set 0 { clientsIn .waitAck 0 with phase := .bound, config := cA } []) := by
    refine ⟨by simp [acked], ?_⟩
    rw [show (acked sA sB).client 0 = clientsIn .waitAck 0 from rfl, hA]
    rfl
  have hown : OwnAck (acked sA sB) (.deliver 0 (reply dhcpAck 0) fun _ => 0) := by
    intro _ _
    obtain ⟨p, rfl, -, -, hmac, -⟩ :=
      says_replyFrame macServer macA ipServer bootXid ipA dhcpAck fun _ => 0
    exact hmac
  refine ⟨_, _, _, hstep, hown, ?_, ?_, hleased, (hiff _ _ hstep).mpr hown⟩ <;> simp [Lan.set, hcA]

end HackersOs.L3.Dhcp
