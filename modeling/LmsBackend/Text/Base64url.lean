import LmsBackend.Text.Unicode
import Mathlib.Data.List.TakeDrop
import Mathlib.Data.List.TakeWhile

/-!
# base64url

Three bytes make four sextets, each with a symbol. The decoder looks at the low byte of each code
unit. It takes the symbols of plain base64 as well, skips what is no symbol, and stops at a padding.
-/

namespace Text

def alphabet : List Char :=
  "ABCDEFGHIJKLMNOPQRSTUVWXYZabcdefghijklmnopqrstuvwxyz0123456789-_".toList

def symbol (n : Nat) : Char := alphabet.getD n 'A'

/-- The number of a symbol. -/
def sextet? (ch : Char) : Option Nat :=
  if 'A' ≤ ch ∧ ch ≤ 'Z' then some (ch.toNat - 65)
  else if 'a' ≤ ch ∧ ch ≤ 'z' then some (ch.toNat - 71)
  else if '0' ≤ ch ∧ ch ≤ '9' then some (ch.toNat + 4)
  else if ch = '-' ∨ ch = '+' then some 62
  else if ch = '_' ∨ ch = '/' then some 63
  else none

theorem sextet?_symbol : ∀ n < 64, sextet? (symbol n) = some n := by decide +kernel

theorem sextet?_ascii {ch : Char} {n : Nat} (h : sextet? ch = some n) : ch.toNat < 128 := by
  have hle : ∀ {last : Char}, last.toNat < 128 → ch ≤ last → ch.toNat < 128 :=
    fun hlast hch => (show ch.toNat ≤ _ from hch).trans_lt hlast
  unfold sextet? at h
  split at h
  · rename_i hupper
    exact hle (by decide) hupper.2
  split at h
  · rename_i hlower
    exact hle (by decide) hlower.2
  split at h
  · rename_i hdigit
    exact hle (by decide) hdigit.2
  split at h
  · rename_i hch
    rcases hch with rfl | rfl <;> decide
  split at h
  · rename_i hch
    rcases hch with rfl | rfl <;> decide
  · cases h

theorem symbol_ascii {n : Nat} (hn : n < 64) : (symbol n).toNat < 128 :=
  sextet?_ascii (sextet?_symbol n hn)

theorem symbol_ne {ch : Char} (hch : sextet? ch = none) {n : Nat} (hn : n < 64) : symbol n ≠ ch := by
  intro hsame
  have hsome := sextet?_symbol n hn
  rw [hsame, hch] at hsome
  cases hsome

theorem symbol_inj {m n : Nat} (hm : m < 64) (hn : n < 64) (h : symbol m = symbol n) : m = n := by
  have hsome := sextet?_symbol m hm
  rw [h, sextet?_symbol n hn] at hsome
  exact (Option.some.inj hsome).symm

/-- The sextets of bytes. The last one is filled with zeros. -/
def sextets : List UInt8 → List Nat
  | a :: b :: c :: rest =>
    a.toNat / 4 :: (a.toNat % 4 * 16 + b.toNat / 16) :: (b.toNat % 16 * 4 + c.toNat / 64) ::
      c.toNat % 64 :: sextets rest
  | [a, b] => [a.toNat / 4, a.toNat % 4 * 16 + b.toNat / 16, b.toNat % 16 * 4]
  | [a] => [a.toNat / 4, a.toNat % 4 * 16]
  | [] => []

/-- The bytes of sextets. A sextet that is left over says nothing. -/
def ofSextets : List Nat → List UInt8
  | p :: q :: r :: s :: rest =>
    UInt8.ofNat (p * 4 + q / 16) :: UInt8.ofNat (q % 16 * 16 + r / 4) ::
      UInt8.ofNat (r % 4 * 64 + s) :: ofSextets rest
  | [p, q, r] => [UInt8.ofNat (p * 4 + q / 16), UInt8.ofNat (q % 16 * 16 + r / 4)]
  | [p, q] => [UInt8.ofNat (p * 4 + q / 16)]
  | _ => []

def toBase64url (bytes : List UInt8) : List Char := (sextets bytes).map symbol

/-- The character of the low byte. -/
def lowByte (u : UInt16) : Char := Char.ofNat (u.toNat % 0x100)

def fromBase64url (text : List Char) : List UInt8 :=
  ofSextets ((((encodeUtf16 text).map lowByte).takeWhile (· ≠ '=')).filterMap sextet?)

theorem sextets_lt {bytes : List UInt8} {n : Nat} (h : n ∈ sextets bytes) : n < 64 := by
  have hbyte : ∀ b : UInt8, b.toNat < 256 := UInt8.toNat_lt
  induction bytes using sextets.induct with
  | case1 a b c rest ih =>
    have ha := hbyte a
    have hb := hbyte b
    have hc := hbyte c
    simp only [sextets, List.mem_cons] at h
    rcases h with rfl | rfl | rfl | rfl | h
    · omega
    · omega
    · omega
    · omega
    · exact ih h
  | case2 a b =>
    have ha := hbyte a
    have hb := hbyte b
    simp only [sextets, List.mem_cons, List.not_mem_nil, or_false] at h
    omega
  | case3 a =>
    have ha := hbyte a
    simp only [sextets, List.mem_cons, List.not_mem_nil, or_false] at h
    omega
  | case4 => cases h

theorem ofNat_of_eq {n : Nat} {b : UInt8} (h : n = b.toNat) : UInt8.ofNat n = b := by
  rw [h]
  exact UInt8.ofNat_toNat

theorem ofSextets_sextets (bytes : List UInt8) : ofSextets (sextets bytes) = bytes := by
  have hbyte : ∀ b : UInt8, b.toNat < 256 := UInt8.toNat_lt
  induction bytes using sextets.induct with
  | case1 a b c rest ih =>
    have hb := hbyte b
    have hc := hbyte c
    rw [sextets, ofSextets, ih, ofNat_of_eq (b := a) (by omega), ofNat_of_eq (b := b) (by omega),
      ofNat_of_eq (b := c) (by omega)]
  | case2 a b =>
    have hb := hbyte b
    rw [sextets, ofSextets, ofNat_of_eq (b := a) (by omega), ofNat_of_eq (b := b) (by omega)]
  | case3 a =>
    rw [sextets, ofSextets, ofNat_of_eq (b := a) (by omega)]
  | case4 => rfl

theorem filterMap_symbols {l : List Nat} (h : ∀ n ∈ l, n < 64) :
    (l.map symbol).filterMap sextet? = l := by
  induction l with
  | nil => rfl
  | cons n rest ih =>
    obtain ⟨hn, hrest⟩ := List.forall_mem_cons.mp h
    rw [List.map_cons, List.filterMap_cons_some (sextet?_symbol n hn), ih hrest]

theorem lowByte_ascii {text : List Char} (h : ∀ ch ∈ text, ch.toNat < 128) :
    (encodeUtf16 text).map lowByte = text := by
  induction text with
  | nil => rfl
  | cons ch rest ih =>
    obtain ⟨hch, hrest⟩ := List.forall_mem_cons.mp h
    have hunit : utf16 ch = [UInt16.ofNat ch.toNat] := if_pos (by omega)
    have hlow : lowByte (UInt16.ofNat ch.toNat) = ch := by
      unfold lowByte
      rw [toNat_unit (by omega), Nat.mod_eq_of_lt (by omega), Char.ofNat_toNat]
    rw [encodeUtf16, List.flatMap_cons, hunit, List.map_append, List.map_singleton, hlow]
    exact congrArg (ch :: ·) (ih hrest)

/-- What is encoded is decoded. -/
theorem fromBase64url_toBase64url (bytes : List UInt8) :
    fromBase64url (toBase64url bytes) = bytes := by
  have hascii : ∀ ch ∈ toBase64url bytes, ch.toNat < 128 := by
    intro ch hch
    obtain ⟨n, hn, rfl⟩ := List.mem_map.mp hch
    exact symbol_ascii (sextets_lt hn)
  have hpad : ∀ ch ∈ toBase64url bytes, decide (ch ≠ '=') = true := by
    intro ch hch
    obtain ⟨n, hn, rfl⟩ := List.mem_map.mp hch
    exact decide_eq_true (symbol_ne (by decide) (sextets_lt hn))
  unfold fromBase64url
  rw [lowByte_ascii hascii, List.takeWhile_eq_self_iff.mpr hpad, toBase64url, filterMap_symbols fun n => sextets_lt,
    ofSextets_sextets]

theorem sextets_inj {bytes bytes' : List UInt8} (h : sextets bytes = sextets bytes') :
    bytes = bytes' := by
  rw [← ofSextets_sextets bytes, h, ofSextets_sextets]

/-- Whole groups of bytes are encoded by themselves. -/
theorem sextets_append {bytes : List UInt8} (rest : List UInt8) (h : 3 ∣ bytes.length) :
    sextets (bytes ++ rest) = sextets bytes ++ sextets rest := by
  induction bytes using sextets.induct with
  | case1 a b c tail ih =>
    have htail : 3 ∣ tail.length := by
      simp only [List.length_cons] at h
      omega
    simp only [List.cons_append, sextets, ih htail]
  | case2 a b => simp only [List.length_cons, List.length_nil] at h; omega
  | case3 a => simp only [List.length_cons, List.length_nil] at h; omega
  | case4 => rfl

theorem length_sextets {bytes : List UInt8} {n : Nat} (h : bytes.length = 3 * n) :
    (sextets bytes).length = 4 * n := by
  induction bytes using sextets.induct generalizing n with
  | case1 a b c tail ih =>
    simp only [List.length_cons] at h
    have htail := ih (n := n - 1) (by omega)
    simp only [sextets, List.length_cons]
    omega
  | case2 a b => simp only [List.length_cons, List.length_nil] at h; omega
  | case3 a => simp only [List.length_cons, List.length_nil] at h; omega
  | case4 =>
    simp only [List.length_nil] at h
    simp only [sextets, List.length_nil]
    omega

/-- The sextets of the first `4 * n + 3` symbols tell the bytes apart up to the top of a third. -/
theorem take_sextets_eq_iff {p p' : List UInt8} {x y z x' y' z' : UInt8} {n : Nat}
    (rest rest' : List UInt8) (h : p.length = 3 * n) (h' : p'.length = 3 * n) :
    (sextets (p ++ x :: y :: z :: rest)).take (4 * n + 3) =
        (sextets (p' ++ x' :: y' :: z' :: rest')).take (4 * n + 3) ↔
      p = p' ∧ x = x' ∧ y = y' ∧ z.toNat / 64 = z'.toNat / 64 := by
  have hlen := length_sextets h
  have hlen' := length_sextets h'
  have htake : ∀ a b c d l, (a :: b :: c :: d :: l : List Nat).take 3 = [a, b, c] := by
    intros
    rfl
  rw [sextets_append _ ⟨n, h⟩, sextets_append _ ⟨n, h'⟩, ← hlen, List.take_length_add_append, hlen,
    ← hlen', List.take_length_add_append, sextets, sextets, htake, htake,
    List.append_eq_append_iff_of_size_eq_left (hlen.trans hlen'.symm)]
  constructor
  · rintro ⟨hp, hq⟩
    have hbyte : ∀ b : UInt8, b.toNat < 256 := UInt8.toNat_lt
    have hy := hbyte y
    have hy' := hbyte y'
    have hz := hbyte z
    have hz' := hbyte z'
    simp only [List.cons.injEq, and_true] at hq
    refine ⟨sextets_inj hp, UInt8.toNat_inj.mp ?_, UInt8.toNat_inj.mp ?_, ?_⟩
    · omega
    · omega
    · omega
  · rintro ⟨rfl, rfl, rfl, hz⟩
    rw [hz]
    exact ⟨rfl, rfl⟩

end Text
