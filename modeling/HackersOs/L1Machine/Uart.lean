import HackersOs.Core.Numerals
import HackersOs.Core.Traced
import HackersOs.Core.Words

/-!
# Numbers on the console (`uart/uart.cpp`)

`puthex` goes through the sixteen nibbles from the left and skips leading zeros;
`putdec` and `putuint` divide by ten, store the digits in a buffer of 20 bytes and
emit them from its end. The functions run as traced programs: an event for each
character written to the data register and for each use of the buffer.

`number_printing_faithful`: for every 64-bit value the text is the one canonical
numeral of the value, with a sign or a `0x`, and the buffer is never exceeded. The
negation of the most negative value wraps to itself, which as a `u64` is its
absolute value.

`printf_inBounds_iff`: a format is read up to its NUL unless it ends in a single `%`,
and then the text is that of its pieces in order.
-/
namespace HackersOs.L1.Uart
open HackersOs.Core HackersOs.Core.Numerals HackersOs.Core.Traced

/-- A character for `UART_DR`, a store to or a load from `buf`, and a read behind the NUL
of a format. -/
inductive Event where
  | out (c : UInt8)
  | store (i : Nat)
  | load (i : Nat)
  | overrun
  deriving DecidableEq, Repr

abbrev Prog (α : Type) : Type := Traced Event α

/-- What is left out is the wait for room in the FIFO. mirrors src/uart/uart.cpp:45-49 -/
def putc (c : UInt8) : Prog Unit := Traced.event (.out c)

/-- `if (c == '\n') putc('\r'); putc(c);` mirrors src/uart/uart.cpp:59-60, 154-155 -/
def putcText (c : UInt8) : Prog Unit := do
  if c = 0x0A then putc 0x0D
  putc c

/-- The string without its NUL. mirrors src/uart/uart.cpp:57-62 -/
def puts : List UInt8 → Prog Unit
  | [] => pure ()
  | c :: s => do
    putcText c
    puts s

/-- `hex_chars` -/
def hexChars : List UInt8 :=
  [0x30, 0x31, 0x32, 0x33, 0x34, 0x35, 0x36, 0x37, 0x38, 0x39, 0x61, 0x62, 0x63, 0x64, 0x65, 0x66]

/-- The loop with `k` nibbles to go, from `i = 4 * (k - 1)` on. mirrors src/uart/uart.cpp:69-74 -/
def puthexLoop (value : UInt64) : Nat → Bool → Prog Bool
  | 0, leading => pure leading
  | k + 1, leading => do
    let nibble := (value >>> UInt64.ofNat (4 * k)) &&& 0xF
    if nibble = 0 ∧ leading = true ∧ 0 < 4 * k then puthexLoop value k leading
    else
      putc (hexChars.getD nibble.toNat 0)
      puthexLoop value k false

/-- mirrors src/uart/uart.cpp:66-76 -/
def puthex (value : UInt64) : Prog Unit := do
  puts [0x30, 0x78]
  let leading ← puthexLoop value 16 true
  if leading then putc 0x30

/-- `while (v > 0) { buf[i++] = '0' + (v % 10); v /= 10; }`
mirrors src/uart/uart.cpp:90-93, 104-107 -/
def storeDigits (v : UInt64) (buf : Nat → UInt8) (i : Nat) : Prog ((Nat → UInt8) × Nat) :=
  if 0 < v then do
    Traced.event (.store i)
    storeDigits (v / 10) (Function.update buf i (0x30 + v % 10).toUInt8) (i + 1)
  else pure (buf, i)
termination_by v.toNat
decreasing_by
  rename_i hv
  have hpos : 0 < v.toNat := hv
  rw [UInt64.toNat_div]
  exact Nat.div_lt_self hpos (by decide)

/-- `while (i > 0) putc(buf[--i]);` mirrors src/uart/uart.cpp:94, 108 -/
def putDigits (buf : Nat → UInt8) : Nat → Prog Unit
  | 0 => pure ()
  | i + 1 => do
    Traced.event (.load i)
    putc (buf i)
    putDigits buf i

/-- From `char buf[20]` on, with what the stack holds there. -/
def putNonzero (stack : Nat → UInt8) (v : UInt64) : Prog Unit := do
  let (buf, i) ← storeDigits v stack 0
  putDigits buf i

/-- mirrors src/uart/uart.cpp:78-95 -/
def putdec (stack : Nat → UInt8) (value : Int64) : Prog Unit := do
  if value < 0 then putc 0x2D
  let value := if value < 0 then -value else value
  if value = 0 then putc 0x30
  else putNonzero stack value.toUInt64

/-- mirrors src/uart/uart.cpp:97-109 -/
def putuint (stack : Nat → UInt8) (value : UInt64) : Prog Unit :=
  if value = 0 then putc 0x30
  else putNonzero stack value

/-- The arguments of `printf`, eight bytes each, and the strings that pointers among them
point to, up to their NUL. -/
structure VarArgs where
  slot : Nat → UInt64
  string : UInt64 → List UInt8

/-- `"(null)"` -/
def nullText : List UInt8 := [0x28, 0x6E, 0x75, 0x6C, 0x6C, 0x29]

/-- The `switch` on the character behind a `%`, with the index of the next argument.
mirrors src/uart/uart.cpp:118-152 -/
def convert (stack : Nat → UInt8) (va : VarArgs) (k : Nat) (c : UInt8) : Prog Nat :=
  if c = 0x73 then do
    puts (if va.slot k = 0 then nullText else va.string (va.slot k))
    pure (k + 1)
  else if c = 0x64 then do
    putdec stack (va.slot k).toInt64
    pure (k + 1)
  else if c = 0x75 then do
    putuint stack (va.slot k)
    pure (k + 1)
  else if c = 0x78 ∨ c = 0x70 then do
    puthex (va.slot k)
    pure (k + 1)
  else if c = 0x63 then do
    putc (va.slot k).toUInt8
    pure (k + 1)
  else if c = 0x25 then do
    putc 0x25
    pure k
  else do
    putc 0x25
    putc c
    pure k

/-- The loop over the format, without its NUL; `stack k` is what the stack holds at argument `k`.
mirrors src/uart/uart.cpp:111-161 -/
def printf (stack : Nat → Nat → UInt8) (va : VarArgs) : List UInt8 → Nat → Prog Unit
  | [], _ => pure ()
  | c :: fmt, k =>
    if c = 0x25 then
      match fmt with
      | [] => do
        -- `*fmt` is the NUL, and `fmt++` goes on behind it
        let _ ← convert (stack k) va k 0
        Traced.event .overrun
      | c :: fmt => do
        let k ← convert (stack k) va k c
        printf stack va fmt k
    else do
      putcText c
      printf stack va fmt k

/-- What comes out of the UART. -/
def text {α : Type} (m : Prog α) : List UInt8 := m.trace.filterMap fun
  | .out c => some c
  | _ => none

/-- The buffer has 20 bytes, and a format ends with its NUL. -/
def InBounds : Event → Prop
  | .out _ => True
  | .store i | .load i => i < 20
  | .overrun => False

/-! ## Texts of the building blocks -/

section
variable {α β : Type}

@[simp] theorem text_pure (x : α) : text (pure x : Prog α) = [] := rfl

@[simp] theorem text_bind (m : Prog α) (f : α → Prog β) :
    text (m >>= f) = text m ++ text (f m.value) :=
  List.filterMap_append

@[simp] theorem text_putc (c : UInt8) : text (putc c) = [c] := rfl

@[simp] theorem text_store (i : Nat) : text (Traced.event (.store i)) = [] := rfl

@[simp] theorem text_load (i : Nat) : text (Traced.event (.load i)) = [] := rfl

@[simp] theorem inBounds_putc (c : UInt8) : Every InBounds (putc c) :=
  (every_event _).mpr trivial

end

/-! ## Decimal -/

section
variable {stack buf buf' : Nat → UInt8} {v : UInt64} {i k : Nat}

theorem digitChar_dec (v : UInt64) : (0x30 + v % 10).toUInt8 = digitChar (v.toNat % 10) := by
  have hlt : v.toNat % 10 < 10 := Nat.mod_lt _ (by decide)
  refine UInt8.toNat_inj.mp ?_
  rw [digitChar, if_pos hlt, UInt64.toNat_toUInt8, UInt64.toNat_add, UInt64.toNat_mod,
    UInt8.toNat_ofNat']
  change (0x30 + v.toNat % 10) % 2 ^ 64 % 2 ^ 8 = _
  omega

theorem putDigits_congr (h : ∀ j, j < i → buf j = buf' j) : putDigits buf i = putDigits buf' i := by
  induction i with
  | zero => rfl
  | succ i ih => rw [putDigits, putDigits, h i (by omega), ih fun j hj => h j (by omega)]

theorem inBounds_putDigits (h : i ≤ 20) : Every InBounds (putDigits buf i) := by
  induction i with
  | zero => exact every_pure _
  | succ i ih =>
    simp only [putDigits, every_bind, every_event]
    exact ⟨h, inBounds_putc _, ih (by omega)⟩

theorem storeDigits_zero : storeDigits 0 buf i = pure (buf, i) := by
  rw [storeDigits]
  rfl

theorem storeDigits_pos (hv : 0 < v.toNat) : storeDigits v buf i = (do
    Traced.event (.store i)
    storeDigits (v / 10) (Function.update buf i (digitChar (v.toNat % 10))) (i + 1)) := by
  rw [storeDigits, if_pos (show 0 < v from hv), digitChar_dec]

theorem toNat_div_ten (v : UInt64) : (v / 10).toNat = v.toNat / 10 := UInt64.toNat_div ..

/-- The digits stored from `i` on come out before those below it. -/
theorem storeDigits_text (hv : 0 < v.toNat) :
    text (storeDigits v buf i) = [] ∧ ∃ t, Canonical 10 v.toNat t ∧
      text (putDigits (storeDigits v buf i).value.1 (storeDigits v buf i).value.2) =
        t ++ text (putDigits buf i) := by
  induction hn : v.toNat using Nat.strongRecOn generalizing v buf i with
  | ind n ih =>
    subst hn
    have hlt : v.toNat % 10 < 10 := Nat.mod_lt _ (by decide)
    -- the digit of this round comes out before those below `i`
    have hput : text (putDigits (Function.update buf i (digitChar (v.toNat % 10))) (i + 1)) =
        digitChar (v.toNat % 10) :: text (putDigits buf i) := by
      have hsame : putDigits (Function.update buf i (digitChar (v.toNat % 10))) i = putDigits buf i :=
        putDigits_congr fun j hj => Function.update_of_ne (by omega) _ _
      rw [putDigits, text_bind, text_bind, hsame, Function.update_self]
      rfl
    rw [storeDigits_pos hv]
    simp only [text_bind, text_store, List.nil_append, value_bind]
    rcases Nat.eq_zero_or_pos (v.toNat / 10) with h0 | hpos
    · have hz : v / 10 = 0 := UInt64.toNat_inj.mp ((toNat_div_ten v).trans h0)
      rw [hz, storeDigits_zero]
      refine ⟨rfl, [digitChar (v.toNat % 10)], ?_, hput⟩
      rw [Nat.mod_eq_of_lt (by omega)]
      exact Canonical.digit (by decide) (by omega)
    · rw [← toNat_div_ten] at hpos
      obtain ⟨hnone, t, ht, hrest⟩ := @ih (v / 10).toNat (by rw [toNat_div_ten]; omega)
        (Function.update buf i (digitChar (v.toNat % 10))) (v / 10) (i + 1) hpos rfl
      refine ⟨hnone, t ++ [digitChar (v.toNat % 10)], ?_, ?_⟩
      · have := ht.snoc (by decide) hpos hlt
        rwa [toNat_div_ten, Nat.div_add_mod'] at this
      · rw [hrest, hput, List.append_assoc]
        rfl

/-- A number of at most `k` digits takes at most `k` bytes. -/
theorem inBounds_storeDigits (hv : v.toNat < 10 ^ k) (hk : i + k ≤ 20) :
    Every InBounds (storeDigits v buf i) ∧ (storeDigits v buf i).value.2 ≤ 20 := by
  induction k generalizing v buf i with
  | zero =>
    rw [UInt64.toNat_inj.mp (show v.toNat = (0 : UInt64).toNat by simpa using hv), storeDigits_zero]
    exact ⟨every_pure _, by simpa using hk⟩
  | succ k ih =>
    rcases Nat.eq_zero_or_pos v.toNat with h0 | hpos
    · rw [UInt64.toNat_inj.mp (show v.toNat = (0 : UInt64).toNat from h0), storeDigits_zero]
      exact ⟨every_pure _, by simp; omega⟩
    rw [storeDigits_pos hpos]
    simp only [every_bind, every_event, value_bind]
    have hdiv : (v / 10).toNat < 10 ^ k := by
      rw [toNat_div_ten]
      omega
    obtain ⟨hrest, hle⟩ := @ih (Function.update buf i (digitChar (v.toNat % 10))) (v / 10)
      (i + 1) hdiv (by omega)
    exact ⟨⟨show i < 20 by omega, hrest⟩, hle⟩

theorem putNonzero_spec (hv : 0 < v.toNat) :
    Canonical 10 v.toNat (text (putNonzero stack v)) ∧ Every InBounds (putNonzero stack v) := by
  obtain ⟨hnone, t, ht, htext⟩ := @storeDigits_text stack v 0 hv
  -- 2^64 has 20 digits
  obtain ⟨hstore, hle⟩ := @inBounds_storeDigits stack v 0 20 (Nat.lt_trans v.toNat_lt (by decide))
    (by decide)
  unfold putNonzero
  rw [text_bind, hnone, List.nil_append, every_bind]
  refine ⟨?_, hstore, inBounds_putDigits hle⟩
  rw [htext, putDigits, text_pure, List.append_nil]
  exact ht

theorem putuint_spec (stack : Nat → UInt8) (v : UInt64) :
    Canonical 10 v.toNat (text (putuint stack v)) ∧ Every InBounds (putuint stack v) := by
  unfold putuint
  split
  · rename_i h0
    subst h0
    exact ⟨Canonical.digit (d := 0) (by decide) (by decide), inBounds_putc _⟩
  · rename_i h0
    exact putNonzero_spec (Nat.pos_of_ne_zero fun h => h0 (UInt64.toNat_inj.mp h))

end

/-! ## Hexadecimal -/

section
variable {value : UInt64} {k : Nat}

theorem nibble_toNat (hk : k < 16) :
    ((value >>> UInt64.ofNat (4 * k)) &&& 0xF).toNat = value.toNat / 16 ^ k % 16 := by
  rw [UInt64.toNat_and, UInt64.toNat_shiftRight,
    UInt64.toNat_ofNat_of_lt' (show 4 * k < 2 ^ 64 by omega),
    Nat.mod_eq_of_lt (show 4 * k < 64 by omega), Nat.shiftRight_eq_div_pow, Nat.pow_mul]
  exact Nat.and_two_pow_sub_one_eq_mod _ 4

theorem hexChars_getD {d : Nat} (hd : d < 16) : hexChars.getD d 0 = digitChar d := by
  have hall : ∀ d : Fin 16, hexChars.getD d 0 = digitChar d := by decide
  exact hall ⟨d, hd⟩

/-- After the first digit all nibbles are printed. -/
theorem puthexLoop_rest {t : List UInt8} (hk : k ≤ 16) (hpos : 0 < value.toNat / 16 ^ k)
    (ht : Canonical 16 (value.toNat / 16 ^ k) t) :
    Canonical 16 value.toNat (t ++ text (puthexLoop value k false)) ∧
      (puthexLoop value k false).value = false := by
  induction k generalizing t with
  | zero =>
    rw [pow_zero, Nat.div_one] at ht
    exact ⟨by simpa [puthexLoop] using ht, rfl⟩
  | succ k ih =>
    have hlt : value.toNat / 16 ^ k % 16 < 16 := Nat.mod_lt _ (by decide)
    have hsplit : value.toNat / 16 ^ (k + 1) * 16 + value.toNat / 16 ^ k % 16 =
        value.toNat / 16 ^ k := by
      rw [pow_succ, ← Nat.div_div_eq_div_mul, Nat.div_add_mod']
    have hnext := ht.snoc (by decide) hpos hlt
    rw [hsplit] at hnext
    rw [puthexLoop, if_neg (by simp), nibble_toNat (by omega), hexChars_getD hlt, text_bind,
      text_putc,
      ← List.append_assoc]
    exact ih (by omega) (by omega) hnext

theorem puthexLoop_leading (hk : k < 16) (hlt : value.toNat < 16 ^ (k + 1)) :
    Canonical 16 value.toNat (text (puthexLoop value (k + 1) true)) ∧
      (puthexLoop value (k + 1) true).value = false := by
  induction k with
  | zero =>
    rw [Nat.zero_add, pow_one] at hlt
    have hmod : value.toNat / 16 ^ 0 % 16 = value.toNat := by
      rw [pow_zero, Nat.div_one, Nat.mod_eq_of_lt hlt]
    rw [puthexLoop, if_neg (by simp), nibble_toNat hk, hmod, hexChars_getD hlt]
    exact ⟨Canonical.digit (by decide) hlt, rfl⟩
  | succ k ih =>
    have hmod : value.toNat / 16 ^ (k + 1) % 16 = value.toNat / 16 ^ (k + 1) := by
      refine Nat.mod_eq_of_lt ((Nat.div_lt_iff_lt_mul (Nat.pow_pos (by decide))).mpr ?_)
      rwa [← pow_succ']
    have hnib := @nibble_toNat value (k + 1) hk
    rw [hmod] at hnib
    rw [puthexLoop]
    split
    · -- a leading zero: the rest has one nibble less
      rename_i h0
      refine ih (by omega) ?_
      rw [h0.1] at hnib
      exact (Nat.div_eq_zero_iff_lt (Nat.pow_pos (by decide))).mp hnib.symm
    · rename_i hne
      have hpos : 0 < value.toNat / 16 ^ (k + 1) := by
        rw [← hnib]
        refine Nat.pos_of_ne_zero fun h => hne ⟨UInt64.toNat_inj.mp h, rfl, by omega⟩
      have hdigit : value.toNat / 16 ^ (k + 1) < 16 := by omega
      rw [hnib, hexChars_getD hdigit, text_bind, text_putc]
      exact puthexLoop_rest (by omega) hpos (Canonical.digit (by decide) hdigit)

theorem inBounds_puthexLoop (leading : Bool) : Every InBounds (puthexLoop value k leading) := by
  induction k generalizing leading with
  | zero => exact every_pure _
  | succ k ih =>
    rw [puthexLoop]
    split
    · exact ih leading
    · exact (every_bind _ _).mpr ⟨inBounds_putc _, ih false⟩

theorem puthex_text (value : UInt64) :
    ∃ t, text (puthex value) = 0x30 :: 0x78 :: t ∧ Canonical 16 value.toNat t := by
  obtain ⟨ht, hleading⟩ := @puthexLoop_leading value 15 (by decide) value.toNat_lt
  refine ⟨_, ?_, ht⟩
  unfold puthex
  rw [text_bind, text_bind, hleading]
  exact congrArg _ (List.append_nil _)

theorem inBounds_puthex (value : UInt64) : Every InBounds (puthex value) := by
  have hstart : Every InBounds (puts [0x30, 0x78]) := by simp [puts, putcText]
  unfold puthex
  simp only [every_bind]
  refine ⟨hstart, inBounds_puthexLoop true, ?_⟩
  split
  · exact inBounds_putc _
  · exact every_pure _

end

/-! ## Signed -/

/-- The most negative value too. -/
theorem toNat_neg_toUInt64 {value : Int64} (h : value.toInt < 0) :
    (-value).toUInt64.toNat = value.toInt.natAbs := by
  have hneg : (-value).toUInt64.toNat = (2 ^ 64 - value.toUInt64.toNat) % 2 ^ 64 := UInt64.toNat_neg _
  have hint := toInt_toInt64 value.toUInt64
  rw [Int64.toInt64_toUInt64] at hint
  split at hint <;> omega

theorem toNat_toUInt64 {value : Int64} (h : 0 ≤ value.toInt) :
    value.toUInt64.toNat = value.toInt.natAbs := by
  have hlt := value.toUInt64.toNat_lt
  have hint := toInt_toInt64 value.toUInt64
  rw [Int64.toInt64_toUInt64] at hint
  split at hint <;> omega

/-- Behind the sign `putdec` is `putuint`. -/
theorem putdec_eq (stack : Nat → UInt8) (value : Int64) : putdec stack value =
    if value < 0 then do
      putc 0x2D
      putuint stack (-value).toUInt64
    else putuint stack value.toUInt64 := by
  have hzero (x : Int64) : (if x = 0 then putc 0x30 else putNonzero stack x.toUInt64) =
      putuint stack x.toUInt64 := by
    refine if_congr ?_ rfl rfl
    constructor
    · rintro rfl
      rfl
    · intro h
      rw [← Int64.toInt64_toUInt64 x, h]
      rfl
  unfold putdec
  split
  · exact congrArg (putc 0x2D >>= fun _ => ·) (hzero _)
  · exact hzero _

theorem putdec_spec (stack : Nat → UInt8) (value : Int64) :
    SignedCanonical value.toInt (text (putdec stack value)) ∧
      Every InBounds (putdec stack value) := by
  rw [putdec_eq]
  split
  · rename_i hneg
    have hneg' : value.toInt < 0 := Int64.lt_iff_toInt_lt.mp hneg
    obtain ⟨htext, hbuf⟩ := putuint_spec stack (-value).toUInt64
    rw [toNat_neg_toUInt64 hneg'] at htext
    rw [text_bind, text_putc, every_bind]
    refine ⟨?_, inBounds_putc _, hbuf⟩
    have := SignedCanonical.neg (by omega) htext
    rwa [show -(value.toInt.natAbs : Int) = value.toInt by omega] at this
  · rename_i hnonneg
    have hnonneg' : 0 ≤ value.toInt := Int.not_lt.mp fun h => hnonneg (Int64.lt_iff_toInt_lt.mpr h)
    obtain ⟨htext, hbuf⟩ := putuint_spec stack value.toUInt64
    rw [toNat_toUInt64 hnonneg'] at htext
    refine ⟨?_, hbuf⟩
    have := SignedCanonical.nonneg htext
    rwa [show (value.toInt.natAbs : Int) = value.toInt by omega] at this

/-- For every 64-bit value and whatever the stack holds: `putuint` emits the canonical decimal,
`putdec` the canonical signed decimal and `puthex` the canonical hexadecimal behind `0x`, and
each is the only one; no store to `buf` and no load from it is outside its 20 bytes. -/
theorem number_printing_faithful (stack : Nat → UInt8) :
    (∀ v t, Canonical 10 (UInt64.toNat v) t ↔ t = text (putuint stack v)) ∧
      (∀ v t, SignedCanonical (Int64.toInt v) t ↔ t = text (putdec stack v)) ∧
      (∀ v t, Canonical 16 (UInt64.toNat v) t ↔ 0x30 :: 0x78 :: t = text (puthex v)) ∧
      (∀ v, Every InBounds (putuint stack v)) ∧ ∀ v, Every InBounds (putdec stack v) := by
  refine ⟨fun v t => ?_, fun v t => ?_, fun v t => ?_, fun v => (putuint_spec stack v).2,
    fun v => (putdec_spec stack v).2⟩
  · have hv := (putuint_spec stack v).1
    constructor
    · intro ht
      exact ht.unique (by decide) (by decide) hv
    · rintro rfl
      exact hv
  · have hv := (putdec_spec stack v).1
    constructor
    · intro ht
      exact ht.unique hv
    · rintro rfl
      exact hv
  · obtain ⟨t', htext, ht'⟩ := puthex_text v
    rw [htext]
    constructor
    · intro ht
      rw [ht.unique (by decide) (by decide) ht']
    · intro heq
      cases heq
      exact ht'

/-- The most negative value. -/
theorem number_printing_faithful_min : text (putdec (fun _ => 0) Int64.minValue) =
    [0x2D, 0x39, 0x32, 0x32, 0x33, 0x33, 0x37, 0x32, 0x30, 0x33,
      0x36, 0x38, 0x35, 0x34, 0x37, 0x37, 0x35, 0x38, 0x30, 0x38] := by
  have hmin : SignedCanonical (-(9223372036854775808 : Nat))
      [0x2D, 0x39, 0x32, 0x32, 0x33, 0x33, 0x37, 0x32, 0x30, 0x33,
      0x36, 0x38, 0x35, 0x34, 0x37, 0x37, 0x35, 0x38, 0x30, 0x38] :=
    .neg (by decide) ⟨by decide, by decide, by decide⟩
  exact (((number_printing_faithful fun _ => 0).2.1 Int64.minValue _).mp hmin).symm

example : text (puthex 0xC0FFEE) = [0x30, 0x78, 0x63, 0x30, 0x66, 0x66, 0x65, 0x65] := by decide

/-! ## Formats -/

/-- A piece of a format: a character, or a `%` and the character behind it. -/
inductive Piece where
  | char (c : UInt8) (h : c ≠ 0x25)
  | conv (c : UInt8)

def Piece.bytes : Piece → List UInt8
  | .char c _ => [c]
  | .conv c => [0x25, c]

/-- A carriage return before each newline. -/
def crlf (s : List UInt8) : List UInt8 := s.flatMap fun c => if c = 0x0A then [0x0D, 0x0A] else [c]

/-- What a piece prints at argument `k`, and the index of the next argument. -/
inductive Prints (va : VarArgs) (k : Nat) : Piece → List UInt8 → Nat → Prop where
  | char {c : UInt8} (h : c ≠ 0x25) : Prints va k (.char c h) (crlf [c]) k
  | null : va.slot k = 0 → Prints va k (.conv 0x73) nullText (k + 1)
  | string : va.slot k ≠ 0 → Prints va k (.conv 0x73) (crlf (va.string (va.slot k))) (k + 1)
  | dec {t : List UInt8} : SignedCanonical (va.slot k).toInt64.toInt t →
      Prints va k (.conv 0x64) t (k + 1)
  | uint {t : List UInt8} : Canonical 10 (va.slot k).toNat t → Prints va k (.conv 0x75) t (k + 1)
  | hex {c : UInt8} {t : List UInt8} : c = 0x78 ∨ c = 0x70 → Canonical 16 (va.slot k).toNat t →
      Prints va k (.conv c) (0x30 :: 0x78 :: t) (k + 1)
  | byte : Prints va k (.conv 0x63) [(va.slot k).toUInt8] (k + 1)
  | percent : Prints va k (.conv 0x25) [0x25] k
  | other {c : UInt8} : c ∉ [0x73, 0x64, 0x75, 0x78, 0x70, 0x63, 0x25] →
      Prints va k (.conv c) [0x25, c] k

/-- What a list of pieces prints from argument `k` on. -/
inductive Formats (va : VarArgs) : Nat → List Piece → List UInt8 → Prop where
  | nil (k : Nat) : Formats va k [] []
  | cons {k k' : Nat} {p : Piece} {ps : List Piece} {t ts : List UInt8} :
      Prints va k p t k' → Formats va k' ps ts → Formats va k (p :: ps) (t ++ ts)

section
variable {va : VarArgs} {k : Nat} {c : UInt8}

theorem putcText_spec (c : UInt8) : text (putcText c) = crlf [c] ∧ Every InBounds (putcText c) := by
  unfold putcText
  by_cases hc : c = 0x0A
  · subst hc
    exact ⟨rfl, by simp⟩
  · simp [crlf, hc]

theorem puts_spec (s : List UInt8) : text (puts s) = crlf s ∧ Every InBounds (puts s) := by
  induction s with
  | nil => exact ⟨rfl, every_pure _⟩
  | cons c s ih =>
    obtain ⟨htext, hbounds⟩ := putcText_spec c
    rw [puts, text_bind, htext, ih.1, every_bind]
    exact ⟨List.flatMap_append.symm, hbounds, ih.2⟩

/-- A call, and the index of the next argument. -/
theorem Prints.takes {p : Piece} {m : Prog Unit} {k' : Nat} (h : Prints va k p (text m) k')
    (hbounds : Every InBounds m) :
    Prints va k p (text (m >>= fun _ => pure k')) (m >>= fun _ => pure k').value ∧
      Every InBounds (m >>= fun _ => pure k') := by
  rw [text_bind, text_pure, List.append_nil, every_bind]
  exact ⟨h, hbounds, every_pure _⟩

theorem convert_spec (stack : Nat → UInt8) (va : VarArgs) (k : Nat) (c : UInt8) :
    Prints va k (.conv c) (text (convert stack va k c)) (convert stack va k c).value ∧
      Every InBounds (convert stack va k c) := by
  unfold convert
  split
  · rename_i hc
    subst hc
    obtain ⟨htext, hbounds⟩ := puts_spec (if va.slot k = 0 then nullText else va.string (va.slot k))
    refine Prints.takes ?_ hbounds
    rw [htext]
    split
    · exact .null ‹_›
    · exact .string ‹_›
  split
  · rename_i hc
    subst hc
    obtain ⟨htext, hbounds⟩ := putdec_spec stack (va.slot k).toInt64
    exact Prints.takes (.dec htext) hbounds
  split
  · rename_i hc
    subst hc
    obtain ⟨htext, hbounds⟩ := putuint_spec stack (va.slot k)
    exact Prints.takes (.uint htext) hbounds
  split
  · rename_i hc
    obtain ⟨t, htext, ht⟩ := puthex_text (va.slot k)
    refine Prints.takes ?_ (inBounds_puthex _)
    rw [htext]
    exact .hex hc ht
  split
  · rename_i hc
    subst hc
    exact Prints.takes .byte (inBounds_putc _)
  split
  · rename_i hc
    subst hc
    exact Prints.takes .percent (inBounds_putc _)
  · have hother : c ∉ [0x73, 0x64, 0x75, 0x78, 0x70, 0x63, 0x25] := by simp_all
    exact Prints.takes (m := do putc 0x25; putc c) (.other hother)
      ((every_bind _ _).mpr ⟨inBounds_putc _, inBounds_putc _⟩)

theorem printf_char (stack : Nat → Nat → UInt8) (va : VarArgs) (hc : c ≠ 0x25) (fmt : List UInt8)
    (k : Nat) : printf stack va (c :: fmt) k = putcText c >>= fun _ => printf stack va fmt k := by
  rw [printf.eq_def]
  exact if_neg hc

/-- The format of a list of pieces prints them, and is not left. -/
theorem printf_formats (stack : Nat → Nat → UInt8) (va : VarArgs) (ps : List Piece) (k : Nat) :
    Formats va k ps (text (printf stack va (ps.flatMap Piece.bytes) k)) ∧
      Every InBounds (printf stack va (ps.flatMap Piece.bytes) k) := by
  induction ps generalizing k with
  | nil => exact ⟨.nil k, every_pure _⟩
  | cons p ps ih =>
    rw [List.flatMap_cons]
    cases p with
    | char c hc =>
      obtain ⟨htext, hbounds⟩ := putcText_spec c
      obtain ⟨hrest, hrest'⟩ := ih k
      rw [Piece.bytes, List.singleton_append, printf_char stack va hc, text_bind, htext, every_bind]
      exact ⟨.cons (.char hc) hrest, hbounds, hrest'⟩
    | conv c =>
      obtain ⟨hprints, hbounds⟩ := convert_spec (stack k) va k c
      obtain ⟨hrest, hrest'⟩ := ih (convert (stack k) va k c).value
      rw [Piece.bytes, List.cons_append, List.singleton_append, printf, if_pos rfl, text_bind,
        every_bind]
      exact ⟨.cons hprints hrest, hbounds, hrest'⟩

/-- A format is read up to its NUL if and only if it is a list of pieces, that is, each `%` has
a character behind it; and then the text is that of the pieces. -/
theorem printf_inBounds_iff (stack : Nat → Nat → UInt8) (va : VarArgs) (fmt : List UInt8) (k : Nat) :
    (Every InBounds (printf stack va fmt k) ↔ ∃ ps : List Piece, fmt = ps.flatMap Piece.bytes) ∧
      ∀ ps : List Piece, fmt = ps.flatMap Piece.bytes →
        Formats va k ps (text (printf stack va fmt k)) := by
  refine ⟨⟨fun h => ?_, ?_⟩, ?_⟩
  · fun_induction printf stack va fmt k with
    | case1 k => exact ⟨[], rfl⟩
    | case2 k =>
      obtain ⟨-, hover⟩ := (every_bind _ _).mp h
      exact ((every_event _).mp hover).elim
    | case3 k c fmt ih =>
      obtain ⟨ps, rfl⟩ := ih _ ((every_bind _ _).mp h).2
      exact ⟨.conv c :: ps, rfl⟩
    | case4 c fmt k hc ih =>
      obtain ⟨ps, rfl⟩ := ih ((every_bind _ _).mp h).2
      exact ⟨.char c hc :: ps, rfl⟩
  · rintro ⟨ps, rfl⟩
    exact (printf_formats stack va ps k).2
  · rintro ps rfl
    exact (printf_formats stack va ps k).1

end

end HackersOs.L1.Uart
