import Mathlib.Data.List.TakeWhile
import LmsBackend.Text.Json

/-!
# Writing objects of strings and integers

What `JSON.stringify` writes of an object whose values are strings and integers says that object.
-/

namespace Text.Json

/-! ## Integers -/

def writeInt : Int → List Char
  | .ofNat n => Nat.toDigits 10 n
  | .negSucc n => '-' :: Nat.toDigits 10 (n + 1)

def ofInt : Int → JsonNumber
  | .ofNat n => ⟨false, n, 0⟩
  | .negSucc n => ⟨true, n + 1, 0⟩

theorem natOf_toDigits (n : Nat) : natOf (Nat.toDigits 10 n) = n := by
  have hread := @Nat.ofDigitChars_ten_toDigits n
  rw [Nat.ofDigitChars_eq_foldl] at hread
  simp only [Nat.mul_comm 10] at hread
  exact hread

theorem isDigits_toDigits (n : Nat) : isDigits (Nat.toDigits 10 n) = true := by
  refine decide_eq_true ⟨Nat.toDigits_ne_nil, List.all_eq_true.mpr fun c hc => ?_⟩
  exact Nat.isDigit_of_mem_toDigits (by decide) (by decide) hc

theorem head_toDigits {n : Nat} (hn : 0 < n) : (Nat.toDigits 10 n).head? ≠ some '0' := by
  induction n using Nat.strongRecOn with
  | ind n ih =>
    rcases Nat.lt_or_ge n 10 with hlt | hge
    · have hdigit : ∀ m < 10, 0 < m → Nat.digitChar m ≠ '0' := by decide
      rw [Nat.toDigits_of_lt_base hlt]
      exact fun h => hdigit n hlt hn (Option.some.inj h)
    · rw [Nat.toDigits_of_base_le (by decide) hge, List.head?_append_of_ne_nil _ Nat.toDigits_ne_nil]
      exact ih (n / 10) (by omega) (by omega)

theorem isInt_toDigits (n : Nat) : isInt (Nat.toDigits 10 n) = true := by
  refine decide_eq_true ⟨isDigits_toDigits n, fun hhead => ?_⟩
  rcases Nat.eq_zero_or_pos n with rfl | hpos
  · rfl
  · exact absurd hhead (head_toDigits hpos)

theorem unsignedOf_toDigits (negative : Bool) (n : Nat) :
    unsignedOf negative (Nat.toDigits 10 n) = some ⟨negative, n, 0⟩ := by
  have hdigit : ∀ c ∈ Nat.toDigits 10 n, c.isDigit = true := fun c hc =>
    Nat.isDigit_of_mem_toDigits (by decide) (by decide) hc
  have hmark : ∀ c ∈ Nat.toDigits 10 n, (!isExponentMark c) = true := by
    intro c hc
    have h := hdigit c hc
    by_contra hne
    rcases of_decide_eq_true (show isExponentMark c = true by simpa using hne) with rfl | rfl <;>
      cases h
  have hdot : ∀ c ∈ Nat.toDigits 10 n, decide (c ≠ '.') = true := by
    intro c hc
    refine decide_eq_true ?_
    rintro rfl
    cases hdigit _ hc
  unfold unsignedOf
  simp only [List.takeWhile_eq_self_iff.mpr hmark, List.dropWhile_eq_nil_iff.mpr hmark,
    List.takeWhile_eq_self_iff.mpr hdot, List.dropWhile_eq_nil_iff.mpr hdot, isInt_toDigits,
    fractionOf, exponentOf]
  simp [natOf_toDigits]

theorem numberOf_writeInt (n : Int) : numberOf (writeInt n) = some (ofInt n) := by
  rcases n with n | n
  · have hplain : numberOf (Nat.toDigits 10 n) = unsignedOf false (Nat.toDigits 10 n) := by
      unfold numberOf
      split
      · rename_i t ht
        have hminus : '-' ∈ Nat.toDigits 10 n := ht ▸ List.mem_cons_self
        cases Nat.isDigit_of_mem_toDigits (by decide) (by decide) hminus
      · rfl
    exact hplain.trans (unsignedOf_toDigits false n)
  · exact unsignedOf_toDigits true (n + 1)

/-! ## Objects -/

inductive Scalar where
  | string (s : List Char)
  | int (n : Int)

def Scalar.json : Scalar → Json
  | string s => .string (encodeUtf16 s)
  | int n => .number (ofInt n)

def Scalar.write : Scalar → List Char
  | string s => writeString s
  | int n => writeInt n

theorem spells_scalar (a : Scalar) : Spells (.value a.json) a.write := by
  rcases a with s | n
  · exact spells_writeString s
  · exact .number (numberOf_writeInt n)

abbrev Record := List (List Char × Scalar)

def Record.members (record : Record) : List (List UInt16 × Json) :=
  record.map fun (name, a) => (encodeUtf16 name, a.json)

def writeField (name : List Char) (a : Scalar) : List Char := writeString name ++ ':' :: a.write

def writeFields : Record → List Char
  | [] => []
  | [(name, a)] => writeField name a
  | (name, a) :: record => writeField name a ++ ',' :: writeFields record

def Record.write (record : Record) : List Char := '{' :: writeFields record ++ ['}']

theorem spells_writeField (name : List Char) (a : Scalar) :
    Spells (.member (encodeUtf16 name, a.json)) (writeField name a) :=
  @Spells.member [] _ [] _ _ _ rfl (stringText_flatMap_escape name) rfl
    (spells_element (spells_scalar a))

theorem spells_writeFields {record : Record} (h : record ≠ []) :
    Spells (.members record.members) (writeFields record) := by
  induction record using writeFields.induct with
  | case1 => exact absurd rfl h
  | case2 name a => exact .oneMember (spells_writeField name a)
  | case3 name a record hne ih =>
    rw [writeFields.eq_3 _ _ _ hne]
    exact .moreMembers (spells_writeField name a) (ih hne)

theorem parse_write (record : Record) : parse record.write = some (.object record.members) := by
  refine parse_eq_some_iff.mpr (spells_element ?_)
  rcases record with _ | ⟨⟨name, a⟩, record⟩
  · exact @Spells.noMembers [] rfl
  · exact .object (spells_writeFields (List.cons_ne_nil _ record))

theorem encodeUtf16_inj {s t : List Char} (h : encodeUtf16 s = encodeUtf16 t) : s = t := by
  rw [← decodeUtf16_encodeUtf16 s, h, decodeUtf16_encodeUtf16]

theorem get_members (record : Record) (key : String) :
    get key (.object record.members) =
      (record.findRev? fun m => decide (m.1 = key.toList)).map (·.2.json) := by
  have hkey : ∀ name : List Char, decide (encodeUtf16 name = encodeUtf16 key.toList) =
      decide (name = key.toList) := fun name => by
    rw [decide_eq_decide]
    exact ⟨encodeUtf16_inj, congrArg _⟩
  unfold get Record.members
  simp only [List.findRev?_eq_find?_reverse, ← List.map_reverse, List.find?_map, Option.map_map]
  congr 2
  funext m
  exact hkey m.1

end Text.Json
