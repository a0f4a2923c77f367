import HackersOs.L3Net.Wire

/-!
# The answers of the DNS resolver (`net/dns.cpp`)

The checks `resolve` makes on a frame in its buffer and the walk over its
records. Pointers into the buffer are offsets; the message starts at 42, its
end is the length of the frame.
-/
namespace HackersOs.L3.Dns
open HackersOs.Core Net

/-- The loop of `skip_name`; a round takes one byte at least. -/
def skipLoop (buf : Frame) (stop : Nat) : Nat → Nat → Nat
  | 0, _ => stop
  | n + 1, p =>
    if p < stop then
      if buf p = 0 then p + 1
      else if buf p &&& 0xC0 = 0xC0 then p + 2
      else skipLoop buf stop n (p + 1 + (buf p).toNat)
    else stop

/-- mirrors src/net/dns.cpp:49-57 -/
def skipName (buf : Frame) (p stop : Nat) : Nat := skipLoop buf stop stop p

theorem skipLoop_rounds (buf : Frame) (stop n p : Nat) (h : stop ≤ n + p) :
    skipLoop buf stop (n + 1) p = skipLoop buf stop n p := by
  induction n generalizing p with
  | zero =>
    rw [skipLoop, skipLoop, if_neg]
    omega
  | succ n ih =>
    rw [skipLoop.eq_2 buf stop p (n + 1), skipLoop.eq_2 buf stop p n,
      ih (p + 1 + (buf p).toNat) (by omega)]

theorem skipName_root {buf : Frame} {p stop : Nat} (h : p < stop) (h0 : buf p = 0) :
    skipName buf p stop = p + 1 := by
  obtain ⟨n, rfl⟩ : ∃ n, stop = n + 1 := ⟨stop - 1, by omega⟩
  rw [skipName, skipLoop, if_pos h, if_pos h0]

theorem skipName_pointer {buf : Frame} {p stop : Nat} (h : p < stop) (hptr : buf p &&& 0xC0 = 0xC0) :
    skipName buf p stop = p + 2 := by
  obtain ⟨n, rfl⟩ : ∃ n, stop = n + 1 := ⟨stop - 1, by omega⟩
  have hne : buf p ≠ 0 := by
    intro h0
    rw [h0] at hptr
    exact absurd hptr (by decide)
  rw [skipName, skipLoop, if_pos h, if_neg hne, if_pos hptr]

/-- The question section. mirrors src/net/dns.cpp:145-148 -/
def skipQuestions (buf : Frame) (stop : Nat) : Nat → Nat → Nat
  | 0, p => p
  | n + 1, p => skipQuestions buf stop n (skipName buf p stop + 4)

/-- The first address in the answer records. mirrors src/net/dns.cpp:151-166 -/
def findAnswer (buf : Frame) (stop : Nat) : Nat → Nat → Option UInt32
  | 0, _ => none
  | n + 1, p =>
    if p < stop then
      let p := skipName buf p stop
      if p + 10 > stop then none
      else
        let rtype := be16At buf p
        let rdlength := be16At buf (p + 8)
        if rtype = 1 ∧ rdlength = 4 ∧ p + 10 + 4 ≤ stop then some (addrAt buf (p + 10))
        else findAnswer buf stop n (p + 10 + rdlength.toNat)
    else none

/-- The frame is no UDP packet; it goes to `net_handle_packet`.
mirrors src/net/dns.cpp:116-124 -/
def dnsForwards (buf : Frame) (len : Nat) : Bool := decide (14 + 20 + 8 + 12 ≤ len) && buf 23 != 17

/-- The checks on a frame of `len` bytes in the buffer, and the answer.
mirrors src/net/dns.cpp:116-166 -/
def dnsAccept (txid : UInt16) (buf : Frame) (len : Nat) : Option UInt32 :=
  if len < 14 + 20 + 8 + 12 then none
  else if buf 23 ≠ 17 then none
  else if be16At buf 34 ≠ 53 then none
  else if be16At buf 42 ≠ txid then none
  else if be16At buf 44 &&& 0x8000 = 0 then none
  else if be16At buf 44 &&& 0x000F ≠ 0 then none
  else if be16At buf 48 = 0 then none
  else findAnswer buf len (be16At buf 48).toNat (skipQuestions buf len (be16At buf 46).toNat 54)

end HackersOs.L3.Dns
