import HackersOs.Core.Traced
import HackersOs.L3Net.DhcpLease

/-!
# The options of a DHCP packet

`add_option` writes an option as code, length and value; `find_option` goes from
one to the next, over padding, to the first with the code it looks for. It returns
a pointer to the value and does not say how long it is.

Results:
* `options_found`: what was written is found.
* `dhcp_values_in_frame_iff`: when the values that `discover` takes out of a reply
  are the reply's. The search ends with the options area, but neither with the frame
  nor with the value.
-/
namespace HackersOs.L3.Dhcp
open HackersOs.Core Net HackersOs.Core.Traced List

variable {buf : Frame} {m : Nat} {xid : UInt32}

/-! ## Writing -/

def Packet.setOption (pkt : Packet) (p : Nat) (b : UInt8) : Packet :=
  fun j => if j = 240 + p then b else pkt j

/-- Pointers are indices of the options. mirrors src/net/dhcp.cpp:35-40 -/
def addOptionAt (pkt : Packet) (p : Nat) (code len : UInt8) (data : Nat → UInt8) : Packet × Nat :=
  let pkt := (pkt.setOption p code).setOption (p + 1) len
  (fun j => if 240 + (p + 2) ≤ j ∧ j < 240 + (p + 2) + len.toNat then data (j - (240 + (p + 2)))
    else pkt j,
    p + 2 + len.toNat)

/-- An option that is neither padding nor the end. -/
structure DhcpOption where
  code : UInt8
  value : List UInt8
  ne_pad : code ≠ 0
  ne_end : code ≠ 0xFF
  short : value.length ≤ 255

def DhcpOption.bytes (o : DhcpOption) : List UInt8 := addOption o.code o.value

def DhcpOption.write (w : Packet × Nat) (o : DhcpOption) : Packet × Nat :=
  addOptionAt w.1 w.2 o.code (UInt8.ofNat o.value.length) fun i => o.value.getD i 0

/-- The options one after the other, and `*opt = 0xFF`. -/
def writeOptions (pkt : Packet) (os : List DhcpOption) : Packet :=
  let w := os.foldl DhcpOption.write (pkt, 0)
  w.1.setOption w.2 0xFF

def encodedSize (os : List DhcpOption) : Nat := (os.flatMap DhcpOption.bytes).length

section
variable {pkt p : Packet} {code : UInt8} {n i j k : Nat} {o : DhcpOption} {os : List DhcpOption}

theorem DhcpOption.length_bytes (o : DhcpOption) : o.bytes.length = 2 + o.value.length := by
  rw [DhcpOption.bytes, addOption, length_cons, length_cons, Nat.add_comm 2]

theorem DhcpOption.len_toNat (o : DhcpOption) :
    (UInt8.ofNat o.value.length).toNat = o.value.length := by
  rw [UInt8.toNat_ofNat']
  exact Nat.mod_eq_of_lt (Nat.lt_succ_of_le o.short)

theorem encodedSize_cons (o : DhcpOption) (os : List DhcpOption) :
    encodedSize (o :: os) = 2 + o.value.length + encodedSize os := by
  rw [encodedSize, flatMap_cons, length_append, DhcpOption.length_bytes, encodedSize]

theorem write_spec (w : Packet × Nat) (o : DhcpOption) :
    (DhcpOption.write w o).2 = w.2 + (2 + o.value.length) ∧
      Holds (DhcpOption.write w o).1.option w.2 o.bytes ∧
      ∀ j, j < w.2 → (DhcpOption.write w o).1.option j = w.1.option j := by
  unfold DhcpOption.write addOptionAt Packet.setOption Packet.option
  rw [o.len_toNat]
  dsimp only
  refine ⟨Nat.add_assoc _ _ _, ?_, fun j hj => ?_⟩
  · rw [DhcpOption.bytes, addOption, holds_cons, holds_cons]
    refine ⟨?_, ?_, fun i hi => ?_⟩
    · rw [if_neg (by omega), if_neg (by omega), if_pos rfl]
    · rw [if_neg (by omega), if_pos rfl]
    · beta_reduce
      rw [if_pos (by omega), show 240 + (w.2 + 1 + 1 + i) - (240 + (w.2 + 2)) = i by omega,
        getD_eq_getElem?_getD, List.getElem?_eq_getElem hi, Option.getD_some]
  · rw [if_neg (by omega), if_neg (by omega), if_neg (by omega)]

theorem foldl_write_spec (os : List DhcpOption) (w : Packet × Nat) :
    (os.foldl DhcpOption.write w).2 = w.2 + encodedSize os ∧
      Holds (os.foldl DhcpOption.write w).1.option w.2 (os.flatMap DhcpOption.bytes) ∧
      ∀ j, j < w.2 → (os.foldl DhcpOption.write w).1.option j = w.1.option j := by
  induction os generalizing w with
  | nil => exact ⟨rfl, holds_nil, fun _ _ => rfl⟩
  | cons o os ih =>
    obtain ⟨hend, hbytes, hkeep⟩ := write_spec w o
    obtain ⟨hend', hbytes', hkeep'⟩ := ih (DhcpOption.write w o)
    rw [foldl_cons, flatMap_cons, encodedSize_cons, holds_append, o.length_bytes]
    rw [hend] at hend' hbytes' hkeep'
    refine ⟨by omega, ⟨fun i hi => ?_, hbytes'⟩, fun j hj => ?_⟩
    · rw [o.length_bytes] at hi
      rw [hkeep' _ (by omega)]
      exact hbytes i _
    · rw [hkeep' j (by omega), hkeep j hj]

theorem writeOptions_holds (pkt : Packet) (os : List DhcpOption) :
    Holds (writeOptions pkt os).option 0 (os.flatMap DhcpOption.bytes ++ [0xFF]) := by
  obtain ⟨hend, hbytes, -⟩ := foldl_write_spec os (pkt, 0)
  unfold writeOptions Packet.setOption Packet.option
  dsimp only
  rw [holds_append, holds_cons, hend]
  refine ⟨fun i hi => ?_, if_pos rfl, holds_nil⟩
  beta_reduce
  rw [if_neg (by unfold encodedSize; omega)]
  exact hbytes i hi

/-! ## Finding -/

theorem findLoop_end (h : p.option i = 0xFF) : findLoop p code n i = none := by
  cases n with
  | zero => rfl
  | succ n =>
    rw [findLoop, if_neg]
    exact fun hc => hc.2 h

theorem findLoop_pad (hi : i < optionsLen) (h : p.option i = 0) :
    findLoop p code (n + 1) i = findLoop p code n (i + 1) := by
  rw [findLoop, if_pos ⟨hi, by rw [h]; decide⟩, if_pos h]

theorem findLoop_hit (hi : i + 1 < optionsLen) (h : p.option i = code) (hpad : code ≠ 0)
    (hend : code ≠ 0xFF) : findLoop p code (n + 1) i = some (i + 2) := by
  rw [findLoop, if_pos ⟨by omega, h ▸ hend⟩, if_neg (h ▸ hpad), if_neg (by omega), if_pos h]

theorem findLoop_skip (hi : i + 1 < optionsLen) (hpad : p.option i ≠ 0) (hend : p.option i ≠ 0xFF)
    (h : p.option i ≠ code) :
    findLoop p code (n + 1) i = findLoop p code n (i + 2 + (p.option (i + 1)).toNat) := by
  rw [findLoop, if_pos ⟨by omega, hend⟩, if_neg hpad, if_neg (by omega), if_neg h]

/-- The search goes over an option with another code. -/
theorem findLoop_other (hp : Holds p.option i o.bytes) (hi : i + 1 < optionsLen)
    (h : o.code ≠ code) :
    findLoop p code (n + 1) i = findLoop p code n (i + (2 + o.value.length)) := by
  obtain ⟨hcode, hlen, -⟩ : p.option i = o.code ∧ p.option (i + 1) = UInt8.ofNat o.value.length ∧
      _ := by
    rw [DhcpOption.bytes, addOption, holds_cons, holds_cons] at hp
    exact hp
  rw [findLoop_skip hi (hcode ▸ o.ne_pad) (hcode ▸ o.ne_end) (hcode ▸ h), hlen, o.len_toNat,
    Nat.add_assoc]

theorem findLoop_none (os : List DhcpOption)
    (hp : Holds p.option i (os.flatMap DhcpOption.bytes ++ [0xFF]))
    (hfits : i + encodedSize os + 1 ≤ optionsLen) (h : ∀ o ∈ os, o.code ≠ code) :
    findLoop p code n i = none := by
  induction os generalizing n i with
  | nil => exact findLoop_end (holds_cons.mp hp).1
  | cons o os ih =>
    rw [flatMap_cons, append_assoc, holds_append, o.length_bytes] at hp
    rw [encodedSize_cons] at hfits
    cases n with
    | zero => rfl
    | succ n =>
      rw [findLoop_other hp.1 (by omega) (h o mem_cons_self)]
      exact ih hp.2 (by omega) fun x hx => h x (mem_cons_of_mem _ hx)

theorem findLoop_first (before after : List DhcpOption) (ho : o.code = code)
    (hn : optionsLen ≤ n + i)
    (hp : Holds p.option i ((before ++ o :: after).flatMap DhcpOption.bytes ++ [0xFF]))
    (hfits : i + encodedSize (before ++ o :: after) + 1 ≤ optionsLen)
    (h : ∀ x ∈ before, x.code ≠ code) :
    findLoop p code n i = some (i + encodedSize before + 2) ∧
      Holds p.option (i + encodedSize before) o.bytes := by
  induction before generalizing n i with
  | nil =>
    rw [nil_append, flatMap_cons, append_assoc, holds_append] at hp
    rw [nil_append, encodedSize_cons] at hfits
    obtain ⟨n, rfl⟩ : ∃ k, n = k + 1 := ⟨n - 1, by omega⟩
    have hcode : p.option i = code := ho ▸ (holds_cons.mp hp.1).1
    exact ⟨findLoop_hit (by omega) hcode (ho ▸ o.ne_pad) (ho ▸ o.ne_end), hp.1⟩
  | cons x before ih =>
    rw [cons_append, flatMap_cons, append_assoc, holds_append, x.length_bytes] at hp
    rw [cons_append, encodedSize_cons] at hfits
    obtain ⟨n, rfl⟩ : ∃ k, n = k + 1 := ⟨n - 1, by omega⟩
    rw [findLoop_other hp.1 (by omega) (h x mem_cons_self), encodedSize_cons,
      ← Nat.add_assoc i (2 + x.value.length) (encodedSize before)]
    exact ih (n := n) (i := i + (2 + x.value.length)) (by omega) hp.2 (by omega)
      fun y hy => h y (mem_cons_of_mem _ hy)

end

/-- For every list of options that fits the area with its end mark, whatever the packet had
before, and every code: `find_option` returns a pointer to the value of the first option with
the code, which stands there behind its length, and null if and only if there is none. -/
theorem options_found (pkt : Packet) (os : List DhcpOption)
    (hfits : encodedSize os + 1 ≤ optionsLen) (code : UInt8) :
    (∀ before o after, os = before ++ o :: after → o.code = code → (∀ x ∈ before, x.code ≠ code) →
      findOption (writeOptions pkt os) code = some (encodedSize before + 2) ∧
        (writeOptions pkt os).option (encodedSize before + 1) = UInt8.ofNat o.value.length ∧
        Holds (writeOptions pkt os).option (encodedSize before + 2) o.value) ∧
    (findOption (writeOptions pkt os) code = none ↔ ∀ o ∈ os, o.code ≠ code) := by
  have hp := writeOptions_holds pkt os
  have hfirst : ∀ before o after, os = before ++ o :: after → o.code = code →
      (∀ x ∈ before, x.code ≠ code) →
      findOption (writeOptions pkt os) code = some (encodedSize before + 2) ∧
        Holds (writeOptions pkt os).option (encodedSize before) o.bytes := by
    intro before o after hos ho hbefore
    rw [hos] at hp hfits ⊢
    rw [← Nat.zero_add (encodedSize before)]
    exact findLoop_first before after ho (by omega) hp (by omega) hbefore
  refine ⟨fun before o after hos ho hbefore => ?_, fun hnone o ho hcode => ?_, fun h => ?_⟩
  · obtain ⟨hfind, hbytes⟩ := hfirst before o after hos ho hbefore
    rw [DhcpOption.bytes, addOption, holds_cons, holds_cons] at hbytes
    exact ⟨hfind, hbytes.2⟩
  · -- some option has the code, so one of them is the first
    have hsome : (os.find? fun x => x.code = code).isSome := by
      rw [List.find?_isSome]
      exact ⟨o, ho, decide_eq_true hcode⟩
    obtain ⟨x, hx⟩ := Option.isSome_iff_exists.mp hsome
    obtain ⟨hxcode, before, after, hos, hbefore⟩ := List.find?_eq_some_iff_append.mp hx
    have hnot : ∀ y ∈ before, y.code ≠ code := fun y hy => by simpa using hbefore y hy
    rw [(hfirst before x after hos (of_decide_eq_true hxcode) hnot).1] at hnone
    cases hnone
  · exact findLoop_none os hp (by omega) h

def ackOption : DhcpOption := ⟨53, [5], by decide, by decide, by decide⟩
def dnsOption : DhcpOption := ⟨6, [1, 2, 3, 4], by decide, by decide, by decide⟩
def emptyOption : DhcpOption := ⟨6, [], by decide, by decide, by decide⟩

/-- Of two options with one code the first is found. -/
theorem options_found_twice :
    findOption (writeOptions (fun _ => 0) [ackOption, dnsOption, emptyOption]) 6 = some 5 :=
  ((options_found (fun _ => 0) [ackOption, dnsOption, emptyOption] (by decide) 6).1
    [ackOption] dnsOption
    [emptyOption] rfl rfl (by simp [ackOption])).1

/-- The options of `send_dhcp`. mirrors src/net/dhcp.cpp:100-111 -/
def sentOptions (msgType : UInt8) (serverIp requestedIp : UInt32) : List DhcpOption :=
  ⟨53, [msgType], by decide, by decide, (by decide : 1 ≤ 255)⟩ ::
    ((if msgType = dhcpRequest then
      (if requestedIp ≠ 0 then [⟨50, addrBytes requestedIp, by decide, by decide,
        (by decide : 4 ≤ 255)⟩] else []) ++
        (if serverIp ≠ 0 then [⟨54, addrBytes serverIp, by decide, by decide,
          (by decide : 4 ≤ 255)⟩] else [])
    else []) ++ [⟨55, [1, 3, 6, 15], by decide, by decide, by decide⟩])

/-- The frame of `send_dhcp` has what the calls of `add_option` write. -/
theorem sentOptions_written (pkt : Packet) (msgType : UInt8) (serverIp requestedIp : UInt32) :
    Holds (writeOptions pkt (sentOptions msgType serverIp requestedIp)).option 0
      (dhcpOptions msgType serverIp requestedIp) := by
  have hbytes : dhcpOptions msgType serverIp requestedIp =
      (sentOptions msgType serverIp requestedIp).flatMap DhcpOption.bytes ++ [0xFF] := by
    unfold dhcpOptions sentOptions
    split_ifs <;> simp [DhcpOption.bytes]
  rw [hbytes]
  exact writeOptions_holds pkt _

/-! ## Bytes that are used -/

/-- Offsets are those of the frame. -/
inductive Use where
  /-- a header field, or a field of the packet's fixed part -/
  | field (off n : Nat)
  /-- a code or a length that `find_option` looks at -/
  | scan (off : Nat)
  /-- bytes of an option's value, and its length byte -/
  | value (off n : Nat) (optLen : UInt8)

/-- The bytes are the reply's. -/
def Use.InReply (len : Nat) : Use → Prop
  | .field off n => off + n ≤ len
  | .scan _ => True
  | .value off n optLen => 282 ≤ off ∧ off + n ≤ 282 + optionsLen ∧ off + n ≤ len ∧
      (n = 4 → 4 ≤ optLen)

/-- mirrors src/net/dhcp.cpp:47-59 -/
def findTraced (p : Packet) (code : UInt8) : Nat → Nat → Traced Use (Option Nat)
  | 0, _ => pure none
  | n + 1, i =>
    if i < optionsLen then do
      Traced.event (.scan (282 + i))
      if p.option i = 0xFF then pure none
      else if p.option i = 0 then findTraced p code n (i + 1)
      else if i + 1 ≥ optionsLen then pure none
      else
        Traced.event (.scan (282 + (i + 1)))
        if p.option i = code then pure (some (i + 2))
        else findTraced p code n (i + 2 + (p.option (i + 1)).toNat)
    else pure none

/-- `*opt`, if the option is there -/
def byteTraced (p : Packet) (code : UInt8) : Traced Use (Option UInt8) := do
  match ← findTraced p code optionsLen 0 with
  | none => pure none
  | some i =>
    Traced.event (.value (282 + i) 1 (p.option (i - 1)))
    pure (some (p.option i))

/-- `memcpy(&v, opt, 4)`, if the option is there -/
def addrTraced (p : Packet) (code : UInt8) (v : UInt32) : Traced Use UInt32 := do
  match ← findTraced p code optionsLen 0 with
  | none => pure v
  | some i =>
    Traced.event (.value (282 + i) 4 (p.option (i - 1)))
    pure (addrAt p (240 + i))

/-- mirrors src/net/dhcp.cpp:132-151 -/
def receiveTraced (expectedType : UInt8) (xid : UInt32) (buf : Frame) (len : Nat) :
    Traced Use (Option Packet) :=
  let p : Packet := fun i => buf (42 + i)
  if len < 14 + 20 + 8 + 240 then pure none
  else do
    Traced.event (.field 23 1)
    if buf 23 ≠ 17 then pure none
    else
      Traced.event (.field 36 2)
      if be16At buf 36 ≠ 68 then pure none
      else
        Traced.event (.field 42 1)
        if p.op ≠ 2 then pure none
        else
          Traced.event (.field 46 4)
          if p.xid ≠ xid then pure none
          else
            Traced.event (.field 278 4)
            if p.magicCookie ≠ dhcpMagic then pure none
            else
              match ← byteTraced p 53 with
              | none => pure none
              | some t => if t ≠ expectedType then pure none else pure (some p)

/-- The offered address and the server's. mirrors src/net/dhcp.cpp:177-182 -/
def offerTraced (offer : Packet) : Traced Use (UInt32 × UInt32) := do
  Traced.event (.field 58 4)
  Traced.event (.field 62 4)
  let serverIp ← addrTraced offer 54 offer.siaddr
  pure (offer.yiaddr, serverIp)

/-- mirrors src/net/dhcp.cpp:197-223 -/
def ackTraced (c : Config) (ack : Packet) : Traced Use Config := do
  Traced.event (.field 58 4)
  let netmask ← addrTraced ack 1 c.netmask
  let gatewayIp ← addrTraced ack 3 c.gatewayIp
  let dnsServer ← addrTraced ack 6 c.dnsServer
  pure ⟨ack.yiaddr, netmask, gatewayIp, dnsServer⟩

/-- A frame in the first wait of `discover`. -/
def receiveOffer (xid : UInt32) (buf : Frame) (len : Nat) :
    Traced Use (Option (UInt32 × UInt32)) := do
  match ← receiveTraced dhcpOffer xid buf len with
  | none => pure none
  | some offer =>
    let r ← offerTraced offer
    pure (some r)

/-- A frame in its second wait. -/
def receiveAck (c : Config) (xid : UInt32) (buf : Frame) (len : Nat) :
    Traced Use (Option Config) := do
  match ← receiveTraced dhcpAck xid buf len with
  | none => pure none
  | some ack =>
    let config ← ackTraced c ack
    pure (some config)

section
variable {p : Packet} {code t : UInt8} {n i j k len : Nat} {P : Use → Prop}

/-! ## The traced code is the code -/

theorem findTraced_value (p : Packet) (code : UInt8) (n i : Nat) :
    (findTraced p code n i).value = findLoop p code n i := by
  induction n generalizing i with
  | zero => rfl
  | succ n ih =>
    rw [findTraced, findLoop]
    by_cases hi : i < optionsLen
    · by_cases hend : p.option i = 0xFF
      · rw [if_pos hi, value_bind, if_pos hend, if_neg (fun h => h.2 hend)]
        rfl
      · have hin : i < optionsLen ∧ p.option i ≠ 0xFF := ⟨hi, hend⟩
        rw [if_pos hi, value_bind, if_neg hend, if_pos hin, apply_ite Traced.value, ih,
          apply_ite Traced.value, value_bind, apply_ite Traced.value, ih]
        rfl
    · rw [if_neg hi, if_neg (fun h => hi h.1)]
      rfl

theorem byteTraced_value (p : Packet) (code : UInt8) :
    (byteTraced p code).value = (findOption p code).map p.option := by
  rw [byteTraced, value_bind, findTraced_value, ← findOption]
  cases findOption p code <;> rfl

theorem addrTraced_value (p : Packet) (code : UInt8) (v : UInt32) :
    (addrTraced p code v).value = (p.addrOption code).getD v := by
  rw [addrTraced, value_bind, findTraced_value, ← findOption, Packet.addrOption]
  cases findOption p code <;> rfl

theorem offerTraced_value (offer : Packet) :
    (offerTraced offer).value = (offer.yiaddr, serverId offer) := by
  simp only [offerTraced, value_bind, addrTraced_value, value_pure]
  rfl

theorem ackTraced_value (c : Config) (ack : Packet) : (ackTraced c ack).value = c.ofAck ack := by
  simp only [ackTraced, value_bind, addrTraced_value, value_pure]
  rfl

theorem receiveTraced_value (expectedType : UInt8) (xid : UInt32) (buf : Frame) (len : Nat) :
    (receiveTraced expectedType xid buf len).value = dhcpAccept expectedType xid buf len := by
  unfold receiveTraced dhcpAccept
  simp only [apply_ite Traced.value, value_bind, byteTraced_value, value_pure]
  cases findOption (fun i => buf (42 + i)) 53 with
  | none => rfl
  | some i =>
    simp only [Option.map_some, apply_ite Traced.value, value_pure]

theorem receiveOffer_value (xid : UInt32) (buf : Frame) (len : Nat) :
    (receiveOffer xid buf len).value =
    (dhcpAccept dhcpOffer xid buf len).map fun offer => (offer.yiaddr, serverId offer) := by
  rw [receiveOffer, value_bind, receiveTraced_value]
  cases dhcpAccept dhcpOffer xid buf len with
  | none => rfl
  | some offer => exact congrArg some (offerTraced_value offer)

theorem receiveAck_value (c : Config) (xid : UInt32) (buf : Frame) (len : Nat) :
    (receiveAck c xid buf len).value = (dhcpAccept dhcpAck xid buf len).map c.ofAck := by
  rw [receiveAck, value_bind, receiveTraced_value]
  cases dhcpAccept dhcpAck xid buf len with
  | none => rfl
  | some ack => exact congrArg some (ackTraced_value c ack)

/-! ## Where the search comes to -/

/-- The search for `code` goes from index `i` to index `k`. -/
inductive Passes (p : Packet) (code : UInt8) : Nat → Nat → Prop where
  | here (i : Nat) : Passes p code i i
  | pad {i k : Nat} : i < optionsLen → p.option i = 0 → Passes p code (i + 1) k → Passes p code i k
  | skip {i k : Nat} : i + 1 < optionsLen → p.option i ≠ 0 → p.option i ≠ 0xFF → p.option i ≠ code →
      Passes p code (i + 2 + (p.option (i + 1)).toNat) k → Passes p code i k

/-- The first option with `code` starts at index `k`. -/
def FirstAt (p : Packet) (code : UInt8) (k : Nat) : Prop :=
  Passes p code 0 k ∧ k + 1 < optionsLen ∧ p.option k = code

theorem findLoop_of_passes (hpad : code ≠ 0) (hend : code ≠ 0xFF) (hpass : Passes p code i k)
    (hk : k + 1 < optionsLen) (hcode : p.option k = code) (hn : optionsLen ≤ n + i) :
    findLoop p code n i = some (k + 2) := by
  induction hpass generalizing n with
  | here i =>
    obtain ⟨n, rfl⟩ : ∃ m, n = m + 1 := ⟨n - 1, by omega⟩
    exact findLoop_hit hk hcode hpad hend
  | @pad i k hi hzero _ ih =>
    obtain ⟨n, rfl⟩ : ∃ m, n = m + 1 := ⟨n - 1, by omega⟩
    rw [findLoop_pad hi hzero]
    exact ih hk hcode (by omega)
  | @skip i k hi hzero hff hne _ ih =>
    obtain ⟨n, rfl⟩ : ∃ m, n = m + 1 := ⟨n - 1, by omega⟩
    rw [findLoop_skip hi hzero hff hne]
    exact ih hk hcode (by omega)

theorem passes_of_findLoop (h : findLoop p code n i = some j) :
    ∃ k, j = k + 2 ∧ Passes p code i k ∧ k + 1 < optionsLen ∧ p.option k = code := by
  induction n generalizing i with
  | zero => cases h
  | succ n ih =>
    rw [findLoop] at h
    obtain ⟨⟨hi, hff⟩, h⟩ := Option.ite_none_right_eq_some.mp h
    by_cases hzero : p.option i = 0
    · rw [if_pos hzero] at h
      obtain ⟨k, hj, hpass, hk⟩ := ih h
      exact ⟨k, hj, .pad hi hzero hpass, hk⟩
    · rw [if_neg hzero] at h
      obtain ⟨hroom, h⟩ := Option.ite_none_left_eq_some.mp h
      by_cases hcode : p.option i = code
      · rw [if_pos hcode] at h
        exact ⟨i, (Option.some.inj h).symm, .here i, by omega, hcode⟩
      · rw [if_neg hcode] at h
        obtain ⟨k, hj, hpass, hk⟩ := ih h
        exact ⟨k, hj, .skip (by omega) hzero hff hcode hpass, hk⟩

theorem findOption_iff (hpad : code ≠ 0) (hend : code ≠ 0xFF) :
    findOption p code = some (k + 2) ↔ FirstAt p code k := by
  constructor
  · intro h
    obtain ⟨k', hk', hfirst⟩ := passes_of_findLoop h
    obtain rfl : k = k' := by omega
    exact hfirst
  · intro h
    obtain ⟨hpass, hk, hcode⟩ := h
    exact findLoop_of_passes hpad hend hpass hk hcode (by omega)

/-! ## Where the values lie -/

/-- `n` bytes of the first option with `code` lie in the frame and in the options area; four
are not more than the option has. -/
def ValueIn (p : Packet) (len : Nat) (code : UInt8) (n : Nat) : Prop :=
  ∀ k, FirstAt p code k → 282 + (k + 2) + n ≤ len ∧ k + 2 + n ≤ optionsLen ∧
    (n = 4 → 4 ≤ p.option (k + 1))

/-- The search itself does not leave the options area. -/
theorem findTraced_every (hP : ∀ off, 282 ≤ off → off < 282 + optionsLen → P (.scan off))
    (p : Packet) (code : UInt8) (n i : Nat) : Every P (findTraced p code n i) := by
  induction n generalizing i with
  | zero => exact every_pure _
  | succ n ih =>
    rw [findTraced]
    simp only [every_ite, every_bind, every_event, every_pure, ih, implies_true,
      and_true, true_and]
    intro hi
    exact ⟨hP _ (by omega) (by omega), fun _ _ _ => hP _ (by omega) (by omega)⟩

theorem valueIn_none (hpad : code ≠ 0) (hend : code ≠ 0xFF) (h : findOption p code = none) :
    ValueIn p len code n := by
  intro k hk
  cases h.symm.trans ((findOption_iff hpad hend).mpr hk)

theorem valueIn_some (hpad : code ≠ 0) (hend : code ≠ 0xFF) (h : findOption p code = some (k + 2)) :
    ValueIn p len code n ↔
      282 + (k + 2) + n ≤ len ∧ k + 2 + n ≤ optionsLen ∧ (n = 4 → 4 ≤ p.option (k + 1)) := by
  constructor
  · intro hin
    exact hin k ((findOption_iff hpad hend).mp h)
  intro hin k' hk'
  obtain rfl : k = k' := by
    have := Option.some.inj (h.symm.trans ((findOption_iff hpad hend).mpr hk'))
    omega
  exact hin

/-- What is done with a value that was found is in the reply if and only if the value is. -/
theorem every_value_iff (hpad : code ≠ 0) (hend : code ≠ 0xFF) {α : Type}
    {found : Option Nat → Traced Use α} (hnone : Every (Use.InReply len) (found none))
    (hsome : ∀ i, Every (Use.InReply len) (found (some i)) ↔
      Use.InReply len (.value (282 + i) n (p.option (i - 1)))) :
    Every (Use.InReply len) (findTraced p code optionsLen 0 >>= found) ↔ ValueIn p len code n := by
  rw [every_bind, findTraced_value, ← findOption,
    and_iff_right (findTraced_every (fun _ _ _ => trivial) p code _ _)]
  cases hfind : findOption p code with
  | none => exact iff_of_true hnone (valueIn_none hpad hend hfind)
  | some j =>
    obtain ⟨k, rfl, -⟩ := passes_of_findLoop hfind
    rw [hsome, valueIn_some hpad hend hfind]
    constructor
    · intro h
      obtain ⟨-, harea, hframe, hfour⟩ := h
      exact ⟨hframe, by omega, hfour⟩
    · intro h
      obtain ⟨hframe, harea, hfour⟩ := h
      exact ⟨by omega, by omega, hframe, hfour⟩

theorem byteTraced_iff (hpad : code ≠ 0) (hend : code ≠ 0xFF) :
    Every (Use.InReply len) (byteTraced p code) ↔ ValueIn p len code 1 := by
  refine every_value_iff hpad hend (every_pure _) fun i => ?_
  rw [every_bind, every_event, and_iff_left (every_pure _)]

theorem addrTraced_iff (hpad : code ≠ 0) (hend : code ≠ 0xFF) (v : UInt32) :
    Every (Use.InReply len) (addrTraced p code v) ↔ ValueIn p len code 4 := by
  refine every_value_iff hpad hend (every_pure _) fun i => ?_
  rw [every_bind, every_event, and_iff_left (every_pure _)]

theorem receiveTraced_iff (hm : m ≤ len) (h : dhcpAccept t xid buf m = some p) :
    Every (Use.InReply len) (receiveTraced t xid buf m) ↔ ValueIn p len 53 1 := by
  obtain ⟨rfl, hlen, hproto, hport, hop, hxid, hmagic, htype⟩ := dhcpAccept_some h
  unfold receiveTraced
  rw [if_neg (by omega), every_bind, if_neg (not_not.mpr hproto), every_bind,
    if_neg (not_not.mpr hport), every_bind, if_neg (not_not.mpr hop), every_bind,
    if_neg (not_not.mpr hxid), every_bind, if_neg (not_not.mpr hmagic), every_bind,
    byteTraced_value, htype, byteTraced_iff (by decide) (by decide)]
  simp only [every_event, Use.InReply]
  have hlast : Every (Use.InReply len)
      (if t ≠ t then pure none else pure (some fun i => buf (42 + i)) :
          Traced Use (Option Packet)) := by
    rw [if_neg (not_not.mpr rfl)]
    exact every_pure _
  constructor
  · intro hall
    exact hall.2.2.2.2.2.1
  · intro hv
    exact ⟨by omega, by omega, by omega, by omega, by omega, hv, hlast⟩

theorem offerTraced_iff (hlen : 282 ≤ len) :
    Every (Use.InReply len) (offerTraced p) ↔ ValueIn p len 54 4 := by
  simp only [offerTraced, every_bind, every_event, every_pure, and_true, Use.InReply,
    addrTraced_iff (show (54 : UInt8) ≠ 0 by decide) (show (54 : UInt8) ≠ 0xFF by decide)]
  constructor
  · intro h
    exact h.2.2
  · intro h
    exact ⟨by omega, by omega, h⟩

theorem ackTraced_iff (hlen : 282 ≤ len) (c : Config) :
    Every (Use.InReply len) (ackTraced c p) ↔
      ValueIn p len 1 4 ∧ ValueIn p len 3 4 ∧ ValueIn p len 6 4 := by
  simp only [ackTraced, every_bind, every_event, every_pure, and_true, Use.InReply,
    addrTraced_iff (show (1 : UInt8) ≠ 0 by decide) (show (1 : UInt8) ≠ 0xFF by decide),
    addrTraced_iff (show (3 : UInt8) ≠ 0 by decide) (show (3 : UInt8) ≠ 0xFF by decide),
    addrTraced_iff (show (6 : UInt8) ≠ 0 by decide) (show (6 : UInt8) ≠ 0xFF by decide)]
  constructor
  · intro h
    exact h.2
  · intro h
    exact ⟨by omega, h⟩

theorem receiveOffer_iff (hm : m ≤ len) (h : dhcpAccept dhcpOffer xid buf m = some p) :
    Every (Use.InReply len) (receiveOffer xid buf m) ↔ ValueIn p len 53 1 ∧ ValueIn p len 54 4 := by
  have hlen := (dhcpAccept_some h).2.1
  rw [receiveOffer, every_bind, receiveTraced_value, receiveTraced_iff hm h, h,
    ← offerTraced_iff (by omega)]
  rw [every_bind, and_iff_left (every_pure _)]

theorem receiveAck_iff {c : Config} (hm : m ≤ len) (h : dhcpAccept dhcpAck xid buf m = some p) :
    Every (Use.InReply len) (receiveAck c xid buf m) ↔
      ValueIn p len 53 1 ∧ ValueIn p len 1 4 ∧ ValueIn p len 3 4 ∧ ValueIn p len 6 4 := by
  have hlen := (dhcpAccept_some h).2.1
  rw [receiveAck, every_bind, receiveTraced_value, receiveTraced_iff hm h, h,
    ← ackTraced_iff (by omega) c]
  rw [every_bind, and_iff_left (every_pure _)]

end

theorem receivedLen_le (frame : List UInt8) : receivedLen frame ≤ frame.length := by
  rw [receivedLen, length_take]
  exact Nat.min_le_right _ _

/-- For every frame that is accepted in one of the waits, whatever the buffer had: all values
taken out of it are its own if and only if the first option with each code that is looked for
has its value inside the frame and the options area, and four bytes where an address is taken. -/
theorem dhcp_values_in_frame_iff (c : Config) (xid : UInt32) (buf : Frame) (frame : List UInt8)
    (p : Packet) :
    (dhcpAccept dhcpOffer xid (received buf frame) (receivedLen frame) = some p →
      (Every (Use.InReply frame.length)
        (receiveOffer xid (received buf frame) (receivedLen frame)) ↔
        ValueIn p frame.length 53 1 ∧ ValueIn p frame.length 54 4)) ∧
    (dhcpAccept dhcpAck xid (received buf frame) (receivedLen frame) = some p →
      (Every (Use.InReply frame.length)
        (receiveAck c xid (received buf frame) (receivedLen frame)) ↔
        ValueIn p frame.length 53 1 ∧ ValueIn p frame.length 1 4 ∧ ValueIn p frame.length 3 4 ∧
          ValueIn p frame.length 6 4)) :=
  ⟨receiveOffer_iff (receivedLen_le frame), receiveAck_iff (receivedLen_le frame)⟩

/-- An ACK whose options have no end mark. -/
def cutAck : List UInt8 := (replyFrame macServer ipServer dhcpAck bootXid ipA macA).take 285

/-- **Counterexample.** The ACK ends with the message type. The search goes on in the bytes of
an earlier frame, and the DNS server comes from there. -/
theorem stale_dns_server : ∃ p, dhcpAccept dhcpAck bootXid (received (fun _ => 6) cutAck)
    (receivedLen cutAck) = some p ∧
    ((receiveAck ⟨0, 0, 0, 0⟩ bootXid (received (fun _ => 6) cutAck) (receivedLen cutAck)).value.map
      fun c => c.dnsServer) = some 0x06060606 ∧ ¬ Every (Use.InReply cutAck.length)
      (receiveAck ⟨0, 0, 0, 0⟩ bootXid (received (fun _ => 6) cutAck) (receivedLen cutAck)) := by
  have hrun : ((dhcpAccept dhcpAck bootXid (received (fun _ => 6) cutAck) (receivedLen cutAck)).map
      fun p => (findOption p 6, ((⟨0, 0, 0, 0⟩ : Config).ofAck p).dnsServer)) =
          some (some (3 + 2), 0x06060606) := by
    decide +kernel
  obtain ⟨p, hp, hfacts⟩ := Option.map_eq_some_iff.mp hrun
  rw [Prod.mk.injEq] at hfacts
  obtain ⟨hfind, hdns⟩ := hfacts
  refine ⟨p, hp, ?_, ?_⟩
  · rw [receiveAck_value, hp]
    exact congrArg some hdns
  · rw [receiveAck_iff (receivedLen_le cutAck) hp]
    rintro ⟨-, -, -, hin⟩
    have hframe := ((valueIn_some (by decide) (by decide) hfind).mp hin).1
    exact absurd hframe (by decide +kernel)

/-- An ACK with a DNS server. -/
def dnsAck : List UInt8 :=
  dhcpWrap macBroadcast macServer ipServer 0xFFFFFFFF 67 68
    (dhcpFixed 2 bootXid ipA ipServer macA ++
    (addOption 53 [dhcpAck] ++ addOption 6 (addrBytes ipServer) ++ [0xFF]))

theorem dhcp_values_in_frame_iff_dns : Every (Use.InReply dnsAck.length)
    (receiveAck ⟨0, 0, 0, 0⟩ bootXid (received (fun _ => 6) dnsAck) (receivedLen dnsAck)) := by
  have hrun : ((dhcpAccept dhcpAck bootXid (received (fun _ => 6) dnsAck) (receivedLen dnsAck)).map
      fun p => ([53, 1, 3, 6].map (findOption p), p.option 4)) =
          some ([some (0 + 2), none, none, some (3 + 2)], 4) := by
    decide +kernel
  have hlen : dnsAck.length = 590 := dhcpWrap_length (by simp [dhcpFixed_length, addOption])
  obtain ⟨p, hp, hfacts⟩ := Option.map_eq_some_iff.mp hrun
  simp only [map_cons, map_nil, Prod.mk.injEq, List.cons.injEq, and_true, and_assoc] at hfacts
  obtain ⟨htype, hmask, hrouter, hdns, hfour⟩ := hfacts
  refine ((dhcp_values_in_frame_iff ⟨0, 0, 0, 0⟩ bootXid (fun _ => 6) dnsAck p).2 hp).mpr
    ⟨?_, ?_, ?_, ?_⟩
  · rw [valueIn_some (by decide) (by decide) htype, hlen]
    exact ⟨by decide, by decide, fun h => absurd h (by decide)⟩
  · exact valueIn_none (by decide) (by decide) hmask
  · exact valueIn_none (by decide) (by decide) hrouter
  · rw [valueIn_some (by decide) (by decide) hdns, hlen, hfour]
    decide

end HackersOs.L3.Dhcp
