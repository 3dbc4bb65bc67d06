import Mathlib.Data.List.Basic
import Mathlib.Tactic.Common

/-!
# UTF-8 and UTF-16

A decoder of UTF-8 replaces what is no character: the longest start of one, or else the byte.
In UTF-16 it is a surrogate without its other half that is replaced.
-/

namespace Text

def replacement : Char := '\uFFFD'

/-! ## UTF-8 -/

def encodeUtf8 (text : List Char) : List UInt8 := text.flatMap String.utf8EncodeChar

/-- What a decoder has read of a character. The next byte is to be within bounds. -/
inductive Utf8State where
  | start
  | within (owed value least greatest : Nat)
  deriving DecidableEq, Repr

namespace Utf8State

/-- The first byte of a character. -/
def lead (b : UInt8) : List Char × Utf8State :=
  let n := b.toNat
  if n ≤ 0x7F then ([Char.ofNat n], start)
  else if n < 0xC2 then ([replacement], start)
  else if n ≤ 0xDF then ([], within 1 (n % 0x20) 0x80 0xBF)
  else if n ≤ 0xEF then
    -- Neither what is shorter in two bytes, nor a surrogate.
    ([], within 2 (n % 0x10) (if n = 0xE0 then 0xA0 else 0x80) (if n = 0xED then 0x9F else 0xBF))
  else if n ≤ 0xF4 then
    ([], within 3 (n % 0x08) (if n = 0xF0 then 0x90 else 0x80) (if n = 0xF4 then 0x8F else 0xBF))
  else ([replacement], start)

def next (b : UInt8) : Utf8State → List Char × Utf8State
  | start => lead b
  | within owed value least greatest =>
    if least ≤ b.toNat ∧ b.toNat ≤ greatest then
      let value := value * 0x40 + b.toNat % 0x40
      if owed = 1 then ([Char.ofNat value], start) else ([], within (owed - 1) value 0x80 0xBF)
    else (replacement :: (lead b).1, (lead b).2)

/-- The text of the bytes that are left. -/
def decode : Utf8State → List UInt8 → List Char
  | start, [] => []
  | within .., [] => [replacement]
  | s, b :: rest => (s.next b).1 ++ decode (s.next b).2 rest

theorem decode_cons (s : Utf8State) (b : UInt8) (rest : List UInt8) :
    s.decode (b :: rest) = (s.next b).1 ++ (s.next b).2.decode rest := by
  cases s <;> rfl

theorem decode_tail {owed value least greatest : Nat} {b : UInt8} (rest : List UInt8)
    (hleast : least ≤ b.toNat) (hgreatest : b.toNat ≤ greatest) (howed : owed ≠ 1) :
    (within owed value least greatest).decode (b :: rest) =
      (within (owed - 1) (value * 0x40 + b.toNat % 0x40) 0x80 0xBF).decode rest := by
  rw [decode_cons, next, if_pos ⟨hleast, hgreatest⟩, if_neg howed]
  rfl

theorem decode_last {value least greatest : Nat} {b : UInt8} (rest : List UInt8)
    (hleast : least ≤ b.toNat) (hgreatest : b.toNat ≤ greatest) :
    (within 1 value least greatest).decode (b :: rest) =
      Char.ofNat (value * 0x40 + b.toNat % 0x40) :: start.decode rest := by
  rw [decode_cons, next, if_pos ⟨hleast, hgreatest⟩, if_pos rfl]
  rfl

end Utf8State

def decodeUtf8 (bytes : List UInt8) : List Char := Utf8State.start.decode bytes

open Utf8State

theorem toNat_byte {n : Nat} (h : n < 256) : (UInt8.ofNat n).toNat = n :=
  UInt8.toNat_ofNat_of_lt' h

/-- A byte after the first one. -/
theorem toNat_tail (n : Nat) : (UInt8.ofNat (n % 64 + 0x80)).toNat = n % 64 + 0x80 :=
  toNat_byte (by omega)

theorem decode_char (c : Char) (rest : List UInt8) :
    start.decode (String.utf8EncodeChar c ++ rest) = c :: start.decode rest := by
  have hvalid : c.toNat < 0xD800 ∨ 0xDFFF < c.toNat ∧ c.toNat < 0x110000 := c.valid
  have hself : Char.ofNat c.toNat = c := Char.ofNat_toNat c
  generalize hn : c.toNat = n at hvalid hself
  have hval : c.val.toNat = n := hn
  unfold String.utf8EncodeChar
  rw [hval]
  dsimp only
  split
  · -- One byte.
    rw [List.cons_append, List.nil_append, decode_cons, next, lead, toNat_byte (by omega),
      if_pos ‹_›, hself]
    rfl
  split
  · -- Two bytes.
    have hlead : (UInt8.ofNat (n / 64 % 32 + 0xC0)).toNat = n / 64 + 0xC0 := by
      rw [toNat_byte (by omega)]
      omega
    have htail := toNat_tail n
    rw [List.cons_append, List.cons_append, List.nil_append, decode_cons, next, lead, hlead,
      if_neg (by omega), if_neg (by omega), if_pos (by omega), List.nil_append,
      decode_last _ (by omega) (by omega), htail, ← hself]
    congr 2
    omega
  split
  · have hlead : (UInt8.ofNat (n / 4096 % 16 + 0xE0)).toNat = n / 4096 + 0xE0 := by
      rw [toNat_byte (by omega)]
      omega
    have hmiddle := toNat_tail (n / 64)
    have htail := toNat_tail n
    rw [List.cons_append, List.cons_append, List.cons_append, List.nil_append, decode_cons, next,
      lead, hlead, if_neg (by omega), if_neg (by omega), if_neg (by omega), if_pos (by omega),
      List.nil_append, decode_tail _ (by split <;> omega) (by split <;> omega) (by decide),
      decode_last _ (by omega) (by omega), htail, hmiddle, ← hself]
    congr 2
    omega
  · have hlead : (UInt8.ofNat (n / 262144 % 8 + 0xF0)).toNat = n / 262144 + 0xF0 := by
      rw [toNat_byte (by omega)]
      omega
    have hsecond := toNat_tail (n / 4096)
    have hthird := toNat_tail (n / 64)
    have htail := toNat_tail n
    rw [List.cons_append, List.cons_append, List.cons_append, List.cons_append, List.nil_append,
      decode_cons, next, lead, hlead, if_neg (by omega), if_neg (by omega), if_neg (by omega),
      if_neg (by omega), if_pos (by omega), List.nil_append,
      decode_tail _ (by split <;> omega) (by split <;> omega) (by decide),
      decode_tail _ (by omega) (by omega) (by decide), decode_last _ (by omega) (by omega), htail,
      hthird, hsecond, ← hself]
    congr 2
    omega

/-- What is encoded is decoded. -/
theorem decodeUtf8_encodeUtf8 (text : List Char) : decodeUtf8 (encodeUtf8 text) = text := by
  unfold decodeUtf8 encodeUtf8
  induction text with
  | nil => rfl
  | cons c rest ih => rw [List.flatMap_cons, decode_char, ih]

/-! ## UTF-16 -/

/-- The code units of a character. -/
def utf16 (c : Char) : List UInt16 :=
  let n := c.toNat
  if n < 0x10000 then [UInt16.ofNat n]
  else [UInt16.ofNat (0xD800 + (n - 0x10000) / 0x400), UInt16.ofNat (0xDC00 + n % 0x400)]

def encodeUtf16 (text : List Char) : List UInt16 := text.flatMap utf16

def isHigh (u : UInt16) : Bool := 0xD800 ≤ u.toNat ∧ u.toNat < 0xDC00

def isLow (u : UInt16) : Bool := 0xDC00 ≤ u.toNat ∧ u.toNat < 0xE000

/-- The character of a code unit that is by itself. -/
def lone (u : UInt16) : Char := if isHigh u ∨ isLow u then replacement else Char.ofNat u.toNat

def decodeUtf16 : List UInt16 → List Char
  | [] => []
  | [u] => [lone u]
  | u :: v :: rest =>
    if isHigh u ∧ isLow v then
      Char.ofNat (0x10000 + (u.toNat - 0xD800) * 0x400 + (v.toNat - 0xDC00)) :: decodeUtf16 rest
    else lone u :: decodeUtf16 (v :: rest)

theorem toNat_unit {n : Nat} (h : n < 65536) : (UInt16.ofNat n).toNat = n :=
  UInt16.toNat_ofNat_of_lt' h

theorem decodeUtf16_lone {u : UInt16} (rest : List UInt16) (h : isHigh u = false) :
    decodeUtf16 (u :: rest) = lone u :: decodeUtf16 rest := by
  rcases rest with _ | ⟨v, rest⟩
  · rfl
  · rw [decodeUtf16, if_neg (by rw [h]; simp)]

theorem decodeUtf16_utf16 (c : Char) (rest : List UInt16) :
    decodeUtf16 (utf16 c ++ rest) = c :: decodeUtf16 rest := by
  have hvalid : c.toNat < 0xD800 ∨ 0xDFFF < c.toNat ∧ c.toNat < 0x110000 := c.valid
  have hself : Char.ofNat c.toNat = c := Char.ofNat_toNat c
  unfold utf16
  generalize c.toNat = n at hvalid hself
  dsimp only
  split
  · have hunit : (UInt16.ofNat n).toNat = n := toNat_unit (by omega)
    have hhigh : isHigh (UInt16.ofNat n) = false := by
      simp only [isHigh, hunit, decide_eq_false_iff_not]
      omega
    have hlow : isLow (UInt16.ofNat n) = false := by
      simp only [isLow, hunit, decide_eq_false_iff_not]
      omega
    rw [List.cons_append, List.nil_append, decodeUtf16_lone _ hhigh, lone, hhigh, hlow, hunit,
      if_neg (by simp), hself]
  · have hfirst : (UInt16.ofNat (0xD800 + (n - 0x10000) / 0x400)).toNat =
        0xD800 + (n - 0x10000) / 0x400 := toNat_unit (by omega)
    have hsecond : (UInt16.ofNat (0xDC00 + n % 0x400)).toNat = 0xDC00 + n % 0x400 :=
      toNat_unit (by omega)
    have hpair : isHigh (UInt16.ofNat (0xD800 + (n - 0x10000) / 0x400)) ∧
        isLow (UInt16.ofNat (0xDC00 + n % 0x400)) := by
      simp only [isHigh, isLow, hfirst, hsecond, decide_eq_true_eq]
      omega
    have hvalue : 0x10000 + (0xD800 + (n - 0x10000) / 0x400 - 0xD800) * 0x400 +
        (0xDC00 + n % 0x400 - 0xDC00) = n := by omega
    rw [List.cons_append, List.cons_append, List.nil_append, decodeUtf16, if_pos hpair, hfirst,
      hsecond, hvalue, hself]

theorem decodeUtf16_encodeUtf16 (text : List Char) : decodeUtf16 (encodeUtf16 text) = text := by
  unfold encodeUtf16
  induction text with
  | nil => rfl
  | cons c rest ih => rw [List.flatMap_cons, decodeUtf16_utf16, ih]

end Text
