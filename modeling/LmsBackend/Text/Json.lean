import LmsBackend.Text.Unicode
import Mathlib.Algebra.Ring.Nat

/-!
# JSON

The grammar, and a parser that reads exactly what the grammar spells.
-/

namespace Text

/-- `digits * 10 ^ exponent`, or less than zero. -/
structure JsonNumber where
  negative : Bool
  digits : Nat
  exponent : Int
  deriving DecidableEq, Repr

/-- A string is in UTF-16. The members of an object are as they come, also twice. -/
inductive Json where
  | null
  | bool (b : Bool)
  | number (n : JsonNumber)
  | string (s : List UInt16)
  | array (elements : List Json)
  | object (members : List (List UInt16 × Json))

namespace Json

/-! ## Numbers -/

def natOf (digits : List Char) : Nat := digits.foldl (fun n c => n * 10 + (c.toNat - 48)) 0

def isDigits (t : List Char) : Bool := t ≠ [] ∧ t.all Char.isDigit

/-- Only zero itself starts with a zero. -/
def isInt (t : List Char) : Bool := isDigits t ∧ (t.head? = some '0' → t = ['0'])

def fractionOf : List Char → Option (List Char)
  | [] => some []
  | c :: t => if c = '.' ∧ isDigits t then some t else none

def isExponentMark (c : Char) : Bool := c = 'e' ∨ c = 'E'

def exponentOf : List Char → Option Int
  | [] => some 0
  | mark :: t =>
    if isExponentMark mark then
      match t with
      | '-' :: t => if isDigits t then some (-natOf t) else none
      | '+' :: t => if isDigits t then some (natOf t) else none
      | t => if isDigits t then some (natOf t) else none
    else none

def unsignedOf (negative : Bool) (t : List Char) : Option JsonNumber :=
  let mantissa := t.takeWhile fun c => !isExponentMark c
  let int := mantissa.takeWhile (· ≠ '.')
  if isInt int then do
    let fraction ← fractionOf (mantissa.dropWhile (· ≠ '.'))
    let exponent ← exponentOf (t.dropWhile fun c => !isExponentMark c)
    some ⟨negative, natOf (int ++ fraction), exponent - fraction.length⟩
  else none

def numberOf : List Char → Option JsonNumber
  | '-' :: t => unsignedOf true t
  | t => unsignedOf false t

def isNumberChar (c : Char) : Bool := c.isDigit ∨ c ∈ ['-', '+', '.', 'e', 'E']

/-! ## Strings -/

def isPlain (c : Char) : Bool := 0x20 ≤ c.toNat ∧ c ≠ '"' ∧ c ≠ '\\'

def unescape : Char → Option UInt16
  | '"' => some 0x22
  | '\\' => some 0x5C
  | '/' => some 0x2F
  | 'b' => some 0x08
  | 'f' => some 0x0C
  | 'n' => some 0x0A
  | 'r' => some 0x0D
  | 't' => some 0x09
  | _ => none

def hexDigit (n : Nat) : Char := "0123456789abcdef".toList.getD n '0'

def hexDigit? (c : Char) : Option Nat :=
  if c.isDigit then some (c.toNat - 48)
  else if 'a' ≤ c ∧ c ≤ 'f' then some (c.toNat - 87)
  else if 'A' ≤ c ∧ c ≤ 'F' then some (c.toNat - 55)
  else none

def unicodeOf (a b c d : Char) : Option UInt16 := do
  let a ← hexDigit? a
  let b ← hexDigit? b
  let c ← hexDigit? c
  let d ← hexDigit? d
  some (UInt16.ofNat (((a * 16 + b) * 16 + c) * 16 + d))

/-- What is between the quotes of a string. -/
inductive StringText : List Char → List UInt16 → Prop
  | nil : StringText [] []
  | plain {c t s} : isPlain c = true → StringText t s → StringText (c :: t) (utf16 c ++ s)
  | escape {e u t s} : unescape e = some u → StringText t s → StringText ('\\' :: e :: t) (u :: s)
  | unicode {a b c d u t s} : unicodeOf a b c d = some u → StringText t s →
    StringText ('\\' :: 'u' :: a :: b :: c :: d :: t) (u :: s)

/-- Reads up to the closing quote. -/
def readString : List Char → Option (List UInt16 × List Char)
  | [] => none
  | '"' :: rest => some ([], rest)
  | '\\' :: 'u' :: a :: b :: c :: d :: rest =>
    (unicodeOf a b c d).bind fun u => (readString rest).map fun (s, rest) => (u :: s, rest)
  | '\\' :: e :: rest =>
    (unescape e).bind fun u => (readString rest).map fun (s, rest) => (u :: s, rest)
  | c :: rest =>
    if isPlain c then (readString rest).map fun (s, rest) => (utf16 c ++ s, rest) else none

/-! ## The grammar -/

def isSpace (c : Char) : Bool := c = ' ' ∨ c = '\t' ∨ c = '\n' ∨ c = '\r'

/-- The parts of a text, with what they say. An element is a value in spaces. -/
inductive Phrase where
  | value (v : Json)
  | element (v : Json)
  | elements (vs : List Json)
  | member (m : List UInt16 × Json)
  | members (ms : List (List UInt16 × Json))

inductive Spells : Phrase → List Char → Prop
  | null : Spells (.value .null) "null".toList
  | true : Spells (.value (.bool true)) "true".toList
  | false : Spells (.value (.bool false)) "false".toList
  | number {t n} : numberOf t = some n → Spells (.value (.number n)) t
  | string {t s} : StringText t s → Spells (.value (.string s)) ('"' :: t ++ ['"'])
  | noElements {ws} : ws.all isSpace = true → Spells (.value (.array [])) ('[' :: ws ++ [']'])
  | array {t vs} : Spells (.elements vs) t → Spells (.value (.array vs)) ('[' :: t ++ [']'])
  | noMembers {ws} : ws.all isSpace = true → Spells (.value (.object [])) ('{' :: ws ++ ['}'])
  | object {t ms} : Spells (.members ms) t → Spells (.value (.object ms)) ('{' :: t ++ ['}'])
  | element {ws t ws' v} : ws.all isSpace = true → Spells (.value v) t → ws'.all isSpace = true →
    Spells (.element v) (ws ++ t ++ ws')
  | oneElement {t v} : Spells (.element v) t → Spells (.elements [v]) t
  | moreElements {t ts v vs} : Spells (.element v) t → Spells (.elements vs) ts →
    Spells (.elements (v :: vs)) (t ++ ',' :: ts)
  | member {ws k ws' t key v} : ws.all isSpace = true → StringText k key → ws'.all isSpace = true →
    Spells (.element v) t → Spells (.member (key, v)) (ws ++ '"' :: k ++ '"' :: ws' ++ ':' :: t)
  | oneMember {t m} : Spells (.member m) t → Spells (.members [m]) t
  | moreMembers {t ts m ms} : Spells (.member m) t → Spells (.members ms) ts →
    Spells (.members (m :: ms)) (t ++ ',' :: ts)

/-! ## The parser -/

abbrev Reader (α : Type) := List Char → Option (α × List Char)

def skip (cs : List Char) : List Char := cs.dropWhile isSpace

def readNumber : Reader JsonNumber := fun cs =>
  (numberOf (cs.takeWhile isNumberChar)).map fun n => (n, cs.dropWhile isNumberChar)

def readElement (value : Reader Json) : Reader Json := fun cs =>
  (value (skip cs)).map fun (v, rest) => (v, skip rest)

def readMember (value : Reader Json) : Reader (List UInt16 × Json) := fun cs =>
  match skip cs with
  | '"' :: rest =>
    (readString rest).bind fun (key, rest) =>
      match skip rest with
      | ':' :: rest => (readElement value rest).map fun (v, rest) => ((key, v), rest)
      | _ => none
  | _ => none

/-- Items between commas, up to the closing character. -/
def readItems {α : Type} (item : Reader α) (close : Char) : (fuel : Nat) → Reader (List α)
  | 0, _ => none
  | fuel + 1, cs =>
    (item cs).bind fun (a, rest) =>
      match rest with
      | [] => none
      | c :: rest =>
        if c = ',' then (readItems item close fuel rest).map fun (as, rest) => (a :: as, rest)
        else if c = close then some ([a], rest)
        else none

def readValue : (fuel : Nat) → Reader Json
  | 0, _ => none
  | fuel + 1, cs =>
    match cs with
    | '"' :: rest => (readString rest).map fun (s, rest) => (.string s, rest)
    | '[' :: rest =>
      match skip rest with
      | ']' :: rest => some (.array [], rest)
      | _ =>
        (readItems (readElement (readValue fuel)) ']' rest.length rest).map fun (vs, rest) =>
          (.array vs, rest)
    | '{' :: rest =>
      match skip rest with
      | '}' :: rest => some (.object [], rest)
      | _ =>
        (readItems (readMember (readValue fuel)) '}' rest.length rest).map fun (ms, rest) =>
          (.object ms, rest)
    | 'n' :: 'u' :: 'l' :: 'l' :: rest => some (.null, rest)
    | 't' :: 'r' :: 'u' :: 'e' :: rest => some (.bool true, rest)
    | 'f' :: 'a' :: 'l' :: 's' :: 'e' :: rest => some (.bool false, rest)
    | cs => (readNumber cs).map fun (n, rest) => (.number n, rest)

/-- The value of a whole text. -/
def parse (text : List Char) : Option Json :=
  match readElement (readValue text.length) text with
  | some (v, []) => some v
  | _ => none

/-! ## Strings are read -/

-- The proofs rewrite with their equations.
attribute [local simp] readString readItems readValue

theorem readString_sound {cs rest : List Char} {s : List UInt16}
    (h : readString cs = some (s, rest)) : ∃ t, cs = t ++ '"' :: rest ∧ StringText t s := by
  induction cs using readString.induct generalizing s with
  | case1 => cases h
  | case2 cs =>
    cases h
    exact ⟨[], rfl, .nil⟩
  | case3 a b c d cs ih =>
    obtain ⟨u, hu, h⟩ := Option.bind_eq_some_iff.mp h
    obtain ⟨⟨s', rest'⟩, hs, h⟩ := Option.map_eq_some_iff.mp h
    cases h
    obtain ⟨t, rfl, ht⟩ := ih hs
    exact ⟨_, rfl, .unicode hu ht⟩
  | case4 e cs hno ih =>
    rw [readString.eq_4 _ _ hno] at h
    obtain ⟨u, hu, h⟩ := Option.bind_eq_some_iff.mp h
    obtain ⟨⟨s', rest'⟩, hs, h⟩ := Option.map_eq_some_iff.mp h
    cases h
    obtain ⟨t, rfl, ht⟩ := ih hs
    exact ⟨_, rfl, .escape hu ht⟩
  | case5 c cs hquote hunicode hescape hplain ih =>
    rw [readString.eq_5 _ _ hquote hunicode hescape, if_pos hplain] at h
    obtain ⟨⟨s', rest'⟩, hs, h⟩ := Option.map_eq_some_iff.mp h
    cases h
    obtain ⟨t, rfl, ht⟩ := ih hs
    exact ⟨_, rfl, .plain hplain ht⟩
  | case6 c cs hquote hunicode hescape hplain =>
    rw [readString.eq_5 _ _ hquote hunicode hescape, if_neg hplain] at h
    cases h

theorem readString_plain {c : Char} (h : isPlain c = true) (cs : List Char) :
    readString (c :: cs) = (readString cs).map fun (s, rest) => (utf16 c ++ s, rest) := by
  have hne : c ≠ '"' ∧ c ≠ '\\' := by
    unfold isPlain at h
    simp at h
    exact h.2
  rw [readString.eq_5 _ _ hne.1 (fun _ _ _ _ _ hback => absurd hback hne.2) fun _ _ hback =>
    absurd hback hne.2, if_pos h]

theorem readString_escape {e : Char} {u : UInt16} (h : unescape e = some u) (cs : List Char) :
    readString ('\\' :: e :: cs) = (readString cs).map fun (s, rest) => (u :: s, rest) := by
  have hne : e ≠ 'u' := by
    rintro rfl
    cases h
  rw [readString.eq_4 _ _ fun _ _ _ _ _ hu => absurd hu hne, h]
  rfl

theorem readString_spelled {t : List Char} {s : List UInt16} (h : StringText t s)
    (rest : List Char) : readString (t ++ '"' :: rest) = some (s, rest) := by
  induction h with
  | nil => rfl
  | plain hc _ ih => rw [List.cons_append, readString_plain hc, ih]; rfl
  | escape he _ ih => rw [List.cons_append, List.cons_append, readString_escape he, ih]; rfl
  | unicode hu _ ih =>
    simp only [List.cons_append]
    rw [readString, hu, ih]
    rfl

/-! ## Numbers are read -/

theorem isNumberChar_of_digits {t : List Char} (h : isDigits t = true) :
    ∀ c ∈ t, isNumberChar c = true := by
  intro c hc
  have hdigits := List.all_eq_true.mp (of_decide_eq_true h).2 c hc
  exact decide_eq_true (.inl hdigits)

theorem fractionOf_chars {t fraction : List Char} (h : fractionOf t = some fraction) :
    ∀ c ∈ t, isNumberChar c = true := by
  unfold fractionOf at h
  split at h
  · intro c hc
    cases hc
  · split at h
    · obtain ⟨rfl, hdigits⟩ := ‹_ ∧ _›
      exact List.forall_mem_cons.mpr ⟨rfl, isNumberChar_of_digits hdigits⟩
    · cases h

theorem isNumberChar_of_mark {c : Char} (h : isExponentMark c = true) : isNumberChar c = true := by
  rcases of_decide_eq_true h with rfl | rfl
  · rfl
  · rfl

theorem exponentOf_chars {t : List Char} {exponent : Int} (h : exponentOf t = some exponent) :
    ∀ c ∈ t, isNumberChar c = true := by
  unfold exponentOf at h
  split at h
  · intro c hc
    cases hc
  split at h
  · have hmark := isNumberChar_of_mark ‹_›
    split at h
    · split at h
      · exact List.forall_mem_cons.mpr ⟨hmark, List.forall_mem_cons.mpr
          ⟨rfl, isNumberChar_of_digits ‹_›⟩⟩
      · cases h
    · split at h
      · exact List.forall_mem_cons.mpr ⟨hmark, List.forall_mem_cons.mpr
          ⟨rfl, isNumberChar_of_digits ‹_›⟩⟩
      · cases h
    · split at h
      · exact List.forall_mem_cons.mpr ⟨hmark, isNumberChar_of_digits ‹_›⟩
      · cases h
  · cases h

theorem unsignedOf_chars {negative : Bool} {t : List Char} {n : JsonNumber}
    (h : unsignedOf negative t = some n) : t ≠ [] ∧ ∀ c ∈ t, isNumberChar c = true := by
  unfold unsignedOf at h
  dsimp only at h
  split at h
  · have hint := (of_decide_eq_true ‹isInt _ = true›).1
    obtain ⟨fraction, hfraction, h⟩ := Option.bind_eq_some_iff.mp h
    obtain ⟨exponent, hexponent, _⟩ := Option.bind_eq_some_iff.mp h
    refine ⟨?_, fun c hc => ?_⟩
    · rintro rfl
      cases hint
    · rw [← List.takeWhile_append_dropWhile (p := fun c => !isExponentMark c) (l := t),
        ← List.takeWhile_append_dropWhile (p := (· ≠ '.'))
          (l := t.takeWhile fun c => !isExponentMark c), List.append_assoc, List.mem_append,
        List.mem_append] at hc
      rcases hc with hc | hc | hc
      · exact isNumberChar_of_digits hint c hc
      · exact fractionOf_chars hfraction c hc
      · exact exponentOf_chars hexponent c hc
  · cases h

theorem numberOf_chars {t : List Char} {n : JsonNumber} (h : numberOf t = some n) :
    t ≠ [] ∧ ∀ c ∈ t, isNumberChar c = true := by
  unfold numberOf at h
  split at h
  · exact ⟨List.cons_ne_nil _ _, List.forall_mem_cons.mpr ⟨rfl, (unsignedOf_chars h).2⟩⟩
  · exact unsignedOf_chars h

theorem readNumber_sound {cs rest : List Char} {n : JsonNumber}
    (h : readNumber cs = some (n, rest)) : ∃ t, cs = t ++ rest ∧ numberOf t = some n := by
  obtain ⟨n', hn, h⟩ := Option.map_eq_some_iff.mp h
  cases h
  exact ⟨_, List.takeWhile_append_dropWhile.symm, hn⟩

/-- The number ends where the rest starts. -/
theorem readNumber_spelled {t rest : List Char} {n : JsonNumber} (h : numberOf t = some n)
    (hrest : ∀ c ∈ rest.head?, isNumberChar c = false) :
    readNumber (t ++ rest) = some (n, rest) := by
  have hchars := (numberOf_chars h).2
  have hend : rest.takeWhile isNumberChar = [] ∧ rest.dropWhile isNumberChar = rest := by
    rcases rest with _ | ⟨c, rest⟩
    · exact ⟨rfl, rfl⟩
    · have hc := hrest c rfl
      simp [hc]
  unfold readNumber
  rw [List.takeWhile_append_of_pos hchars, List.dropWhile_append_of_pos hchars, hend.1, hend.2,
    List.append_nil, h]
  rfl

/-! ## What is read is spelled -/

theorem skip_sound (cs : List Char) : ∃ ws, ws.all isSpace = true ∧ cs = ws ++ skip cs :=
  ⟨_, List.all_takeWhile, List.takeWhile_append_dropWhile.symm⟩

theorem readItems_sound {α : Type} {item : Reader α} {close : Char} {R : α → List Char → Prop}
    {P : List α → List Char → Prop}
    (hitem : ∀ cs a rest, item cs = some (a, rest) → ∃ t, cs = t ++ rest ∧ R a t)
    (hone : ∀ a t, R a t → P [a] t)
    (hmore : ∀ a t as ts, R a t → P as ts → P (a :: as) (t ++ ',' :: ts))
    {fuel : Nat} {cs rest : List Char} {as : List α}
    (h : readItems item close fuel cs = some (as, rest)) :
    ∃ t, cs = t ++ close :: rest ∧ P as t := by
  induction fuel generalizing cs as with
  | zero => cases h
  | succ fuel ih =>
    obtain ⟨⟨a, rest'⟩, ha, hmatch⟩ := Option.bind_eq_some_iff.mp h
    obtain ⟨t, rfl, ht⟩ := hitem _ _ _ ha
    dsimp only at hmatch
    split at hmatch
    · cases hmatch
    split at hmatch
    · obtain ⟨⟨as', rest''⟩, has, hsame⟩ := Option.map_eq_some_iff.mp hmatch
      cases hsame
      obtain ⟨ts, rfl, hts⟩ := ih has
      subst ‹_ = ','›
      exact ⟨t ++ ',' :: ts, by simp, hmore _ _ _ _ ht hts⟩
    split at hmatch
    · cases hmatch
      subst ‹_ = close›
      exact ⟨t, rfl, hone _ _ ht⟩
    · cases hmatch

theorem readElement_sound {value : Reader Json}
    (hvalue : ∀ cs v rest, value cs = some (v, rest) → ∃ t, cs = t ++ rest ∧ Spells (.value v) t)
    (cs : List Char) (v : Json) (rest : List Char) (h : readElement value cs = some (v, rest)) :
    ∃ t, cs = t ++ rest ∧ Spells (.element v) t := by
  obtain ⟨⟨v', rest'⟩, hv, h⟩ := Option.map_eq_some_iff.mp h
  cases h
  obtain ⟨t, ht, hspells⟩ := hvalue _ _ _ hv
  obtain ⟨ws, hws, hcs⟩ := skip_sound cs
  obtain ⟨ws', hws', hrest⟩ := skip_sound rest'
  refine ⟨ws ++ t ++ ws', ?_, .element hws hspells hws'⟩
  rw [hcs, ht, List.append_assoc, List.append_assoc, ← hrest]

theorem readMember_sound {value : Reader Json}
    (hvalue : ∀ cs v rest, value cs = some (v, rest) → ∃ t, cs = t ++ rest ∧ Spells (.value v) t)
    (cs : List Char) (m : List UInt16 × Json) (rest : List Char)
    (h : readMember value cs = some (m, rest)) : ∃ t, cs = t ++ rest ∧ Spells (.member m) t := by
  obtain ⟨ws, hws, hcs⟩ := skip_sound cs
  unfold readMember at h
  split at h
  · obtain ⟨⟨key, rest'⟩, hkey, hmatch⟩ := Option.bind_eq_some_iff.mp h
    obtain ⟨k, rfl, hk⟩ := readString_sound hkey
    obtain ⟨ws', hws', hrest'⟩ := skip_sound rest'
    dsimp only at hmatch
    split at hmatch
    · obtain ⟨⟨v, rest''⟩, hv, hsame⟩ := Option.map_eq_some_iff.mp hmatch
      cases hsame
      obtain ⟨t, rfl, ht⟩ := readElement_sound hvalue _ _ _ hv
      refine ⟨ws ++ '"' :: k ++ '"' :: ws' ++ ':' :: t, ?_, .member hws hk hws' ht⟩
      rw [hcs, ‹skip cs = _›, hrest', ‹skip rest' = _›]
      simp
    · cases hmatch
  · cases h

theorem readValue_sound {fuel : Nat} (cs : List Char) (v : Json) (rest : List Char)
    (h : readValue fuel cs = some (v, rest)) : ∃ t, cs = t ++ rest ∧ Spells (.value v) t := by
  induction fuel generalizing cs v rest with
  | zero => cases h
  | succ fuel ih =>
    unfold readValue at h
    split at h
    · obtain ⟨⟨s, rest'⟩, hs, h⟩ := Option.map_eq_some_iff.mp h
      cases h
      obtain ⟨t, rfl, ht⟩ := readString_sound hs
      exact ⟨'"' :: t ++ ['"'], by simp, .string ht⟩
    · split at h
      · cases h
        obtain ⟨ws, hws, hrest⟩ := skip_sound _
        rw [‹skip _ = _›] at hrest
        exact ⟨'[' :: ws ++ [']'], by rw [hrest]; simp, .noElements hws⟩
      · obtain ⟨⟨vs, rest'⟩, hvs, h⟩ := Option.map_eq_some_iff.mp h
        cases h
        obtain ⟨t, rfl, ht⟩ := readItems_sound (P := fun vs t => Spells (.elements vs) t)
          (readElement_sound ih) (fun _ _ => .oneElement) (fun _ _ _ _ => .moreElements) hvs
        exact ⟨'[' :: t ++ [']'], by simp, .array ht⟩
    · split at h
      · cases h
        obtain ⟨ws, hws, hrest⟩ := skip_sound _
        rw [‹skip _ = _›] at hrest
        exact ⟨'{' :: ws ++ ['}'], by rw [hrest]; simp, .noMembers hws⟩
      · obtain ⟨⟨ms, rest'⟩, hms, h⟩ := Option.map_eq_some_iff.mp h
        cases h
        obtain ⟨t, rfl, ht⟩ := readItems_sound (P := fun ms t => Spells (.members ms) t)
          (readMember_sound ih) (fun _ _ => .oneMember) (fun _ _ _ _ => .moreMembers) hms
        exact ⟨'{' :: t ++ ['}'], by simp, .object ht⟩
    · cases h
      exact ⟨_, rfl, .null⟩
    · cases h
      exact ⟨_, rfl, .true⟩
    · cases h
      exact ⟨_, rfl, .false⟩
    · obtain ⟨⟨n, rest'⟩, hn, h⟩ := Option.map_eq_some_iff.mp h
      cases h
      obtain ⟨t, rfl, ht⟩ := readNumber_sound hn
      exact ⟨t, rfl, .number ht⟩

/-! ## What is spelled is read -/

theorem skip_append {ws : List Char} (h : ws.all isSpace = true) (cs : List Char) :
    skip (ws ++ cs) = skip cs :=
  List.dropWhile_append_of_pos (List.all_eq_true.mp h)

theorem skip_cons {c : Char} (h : isSpace c = false) (cs : List Char) : skip (c :: cs) = c :: cs :=
  List.dropWhile_cons_of_neg (by simp [h])

theorem not_space_of_number {c : Char} (h : isNumberChar c = true) : isSpace c = false := by
  rw [← Bool.not_eq_true]
  intro hspace
  rcases of_decide_eq_true hspace with rfl | rfl | rfl | rfl <;> cases h

/-- How a value starts. -/
theorem value_start {v : Json} {t : List Char} (h : Spells (.value v) t) :
    ∃ c t', t = c :: t' ∧ isSpace c = false ∧ c ≠ ']' := by
  rcases h with _ | _ | _ | hn | _ | _ | _ | _ | _
  · exact ⟨_, _, rfl, rfl, by decide⟩
  · exact ⟨_, _, rfl, rfl, by decide⟩
  · exact ⟨_, _, rfl, rfl, by decide⟩
  · obtain ⟨hne, hchars⟩ := numberOf_chars hn
    obtain ⟨c, t', rfl⟩ := List.exists_cons_of_ne_nil hne
    have hc := hchars c List.mem_cons_self
    refine ⟨c, t', rfl, not_space_of_number hc, ?_⟩
    rintro rfl
    cases hc
  · exact ⟨_, _, rfl, rfl, by decide⟩
  · exact ⟨_, _, rfl, rfl, by decide⟩
  · exact ⟨_, _, rfl, rfl, by decide⟩
  · exact ⟨_, _, rfl, rfl, by decide⟩
  · exact ⟨_, _, rfl, rfl, by decide⟩

theorem element_start {v : Json} {t : List Char} (h : Spells (.element v) t) (cs : List Char) :
    ∃ c cs', skip (t ++ cs) = c :: cs' ∧ c ≠ ']' := by
  rcases h with _ | _ | _ | _ | _ | _ | _ | _ | _ | ⟨hws, hv, _⟩
  obtain ⟨c, t', rfl, hc, hne⟩ := value_start hv
  rw [List.append_assoc, List.append_assoc, skip_append hws, List.cons_append, skip_cons hc]
  exact ⟨c, _, rfl, hne⟩

theorem elements_start {vs : List Json} {t : List Char} (h : Spells (.elements vs) t)
    (cs : List Char) : ∃ c cs', skip (t ++ cs) = c :: cs' ∧ c ≠ ']' := by
  rcases h with _ | _ | _ | _ | _ | _ | _ | _ | _ | _ | hv | ⟨hv, _⟩
  · exact element_start hv cs
  · rw [List.append_assoc]
    exact element_start hv _

theorem member_start {m : List UInt16 × Json} {t : List Char} (h : Spells (.member m) t)
    (cs : List Char) : ∃ cs', skip (t ++ cs) = '"' :: cs' := by
  rcases h with _ | _ | _ | _ | _ | _ | _ | _ | _ | _ | _ | _ | ⟨hws, _, _, _⟩
  simp only [List.append_assoc, List.cons_append]
  rw [skip_append hws]
  exact ⟨_, skip_cons rfl _⟩

theorem members_start {ms : List (List UInt16 × Json)} {t : List Char}
    (h : Spells (.members ms) t) (cs : List Char) : ∃ cs', skip (t ++ cs) = '"' :: cs' := by
  rcases h with _ | _ | _ | _ | _ | _ | _ | _ | _ | _ | _ | _ | _ | hm | ⟨hm, _⟩
  · exact member_start hm cs
  · rw [List.append_assoc]
    exact member_start hm _

theorem readValue_array {fuel : Nat} {cs cs' : List Char} {c : Char} (hskip : skip cs = c :: cs')
    (hc : c ≠ ']') : readValue (fuel + 1) ('[' :: cs) =
      (readItems (readElement (readValue fuel)) ']' cs.length cs).map fun (vs, rest) =>
        (.array vs, rest) := by
  rw [readValue, hskip]
  split
  · exact absurd (List.cons.inj ‹_›).1 hc
  · rfl

theorem readValue_object {fuel : Nat} {cs cs' : List Char} (hskip : skip cs = '"' :: cs') :
    readValue (fuel + 1) ('{' :: cs) =
      (readItems (readMember (readValue fuel)) '}' cs.length cs).map fun (ms, rest) =>
        (.object ms, rest) := by
  rw [readValue, hskip]
  rfl

theorem readValue_number {fuel : Nat} {c : Char} (h : isNumberChar c = true) (cs : List Char) :
    readValue (fuel + 1) (c :: cs) =
      (readNumber (c :: cs)).map fun (n, rest) => (.number n, rest) := by
  unfold readValue
  split
  iterate 6
    · cases ‹c :: cs = _›
      exact absurd h (by decide)
  · rfl

/-- What may come after an element or a member. -/
def Stops (rest : List Char) : Prop := ∀ c ∈ rest.head?, c = ',' ∨ c = ']' ∨ c = '}'

theorem Stops.skip {rest : List Char} (h : Stops rest) : skip rest = rest := by
  rcases rest with _ | ⟨c, rest⟩
  · rfl
  · rcases h c rfl with rfl | rfl | rfl <;> rfl

/-- No number goes on after spaces, or there. -/
theorem Stops.not_number {ws rest : List Char} (h : Stops rest) (hws : ws.all isSpace = true) :
    ∀ c ∈ (ws ++ rest).head?, isNumberChar c = false := by
  intro c hc
  rw [← Bool.not_eq_true]
  intro hnumber
  rcases ws with _ | ⟨w, ws⟩
  · rcases h c hc with rfl | rfl | rfl <;> cases hnumber
  · cases hc
    have hspace := List.all_eq_true.mp hws c List.mem_cons_self
    rw [not_space_of_number hnumber] at hspace
    cases hspace

section

variable {α : Type} {item : Reader α} {close : Char} {fuel : Nat} {a : α} {as : List α}
  {t cs rest : List Char}

theorem readItems_one (hitem : item (t ++ close :: rest) = some (a, close :: rest))
    (hclose : close ≠ ',') :
    readItems item close (fuel + 1) (t ++ close :: rest) = some ([a], rest) := by
  rw [readItems, hitem]
  dsimp only [Option.bind_some]
  rw [if_neg hclose, if_pos rfl]

theorem readItems_more (hitem : item (t ++ ',' :: cs) = some (a, ',' :: cs))
    (hmore : readItems item close fuel cs = some (as, rest)) :
    readItems item close (fuel + 1) (t ++ ',' :: cs) = some (a :: as, rest) := by
  rw [readItems, hitem]
  dsimp only [Option.bind_some]
  rw [if_pos rfl, hmore]
  rfl

end

/-- The parser reads the text as the phrase, with enough fuel. -/
def Phrase.Read (t : List Char) : Phrase → Prop
  | value v => ∀ fuel rest, t.length ≤ fuel → (∀ c ∈ rest.head?, isNumberChar c = false) →
    readValue fuel (t ++ rest) = some (v, rest)
  | element v => ∀ fuel rest, t.length ≤ fuel → Stops rest →
    readElement (readValue fuel) (t ++ rest) = some (v, rest)
  | elements vs => ∀ fuel steps rest, t.length ≤ fuel → t.length < steps →
    readItems (readElement (readValue fuel)) ']' steps (t ++ ']' :: rest) = some (vs, rest)
  | member m => ∀ fuel rest, t.length ≤ fuel → Stops rest →
    readMember (readValue fuel) (t ++ rest) = some (m, rest)
  | members ms => ∀ fuel steps rest, t.length ≤ fuel → t.length < steps →
    readItems (readMember (readValue fuel)) '}' steps (t ++ '}' :: rest) = some (ms, rest)

theorem enclosed_append (left right : Char) (t rest : List Char) :
    left :: t ++ [right] ++ rest = left :: (t ++ right :: rest) := by
  simp

theorem read_of_spells {p : Phrase} {t : List Char} (h : Spells p t) : p.Read t := by
  induction h with
  | null =>
    rintro (_ | fuel) rest hfuel _
    · cases hfuel
    · rfl
  | true =>
    rintro (_ | fuel) rest hfuel _
    · cases hfuel
    · rfl
  | false =>
    rintro (_ | fuel) rest hfuel _
    · cases hfuel
    · rfl
  | @number t n hn =>
    rintro fuel rest hfuel hrest
    obtain ⟨hne, hchars⟩ := numberOf_chars hn
    obtain ⟨c, t', rfl⟩ := List.exists_cons_of_ne_nil hne
    obtain ⟨fuel, rfl⟩ := Nat.exists_eq_add_of_le' (Nat.le_trans (Nat.le_add_left 1 _) hfuel)
    rw [List.cons_append, readValue_number (hchars c List.mem_cons_self), ← List.cons_append,
      readNumber_spelled hn hrest]
    rfl
  | @string t s ht =>
    rintro (_ | fuel) rest hfuel _
    · cases hfuel
    · have hread := readString_spelled ht rest
      rw [enclosed_append, readValue, hread]
      rfl
  | @noElements ws hws =>
    rintro (_ | fuel) rest hfuel _
    · cases hfuel
    · have hskip := skip_append hws (']' :: rest)
      rw [skip_cons rfl] at hskip
      rw [enclosed_append, readValue, hskip]
      rfl
  | @array t vs helements ih =>
    rintro (_ | fuel) rest hfuel _
    · cases hfuel
    · obtain ⟨c, cs', hskip, hc⟩ := elements_start helements (']' :: rest)
      have hread := ih fuel (t ++ ']' :: rest).length rest (by grind) (by grind)
      rw [enclosed_append, readValue_array hskip hc, hread]
      rfl
  | @noMembers ws hws =>
    rintro (_ | fuel) rest hfuel _
    · cases hfuel
    · have hskip := skip_append hws ('}' :: rest)
      rw [skip_cons rfl] at hskip
      rw [enclosed_append, readValue, hskip]
      rfl
  | @object t ms hmembers ih =>
    rintro (_ | fuel) rest hfuel _
    · cases hfuel
    · obtain ⟨cs', hskip⟩ := members_start hmembers ('}' :: rest)
      have hread := ih fuel (t ++ '}' :: rest).length rest (by grind) (by grind)
      rw [enclosed_append, readValue_object hskip, hread]
      rfl
  | @element ws t ws' v hws hv hws' ih =>
    intro fuel rest hfuel hrest
    obtain ⟨c, t', rfl, hc, _⟩ := value_start hv
    have hread := ih fuel (ws' ++ rest) (by grind) (hrest.not_number hws')
    unfold readElement
    rw [List.append_assoc, List.append_assoc, skip_append hws, List.cons_append, skip_cons hc,
      ← List.cons_append, hread, Option.map_some]
    dsimp only
    rw [skip_append hws', hrest.skip]
  | @oneElement t v _ ih =>
    rintro fuel (_ | steps) rest hfuel hsteps
    · cases hsteps
    · have hstops : Stops (']' :: rest) := fun c hc => by cases hc; exact .inr (.inl rfl)
      exact readItems_one (ih fuel _ hfuel hstops) (by decide)
  | @moreElements t ts v vs _ _ ih ihs =>
    rintro fuel (_ | steps) rest hfuel hsteps
    · cases hsteps
    · rw [List.append_assoc, List.cons_append]
      exact readItems_more (ih fuel _ (by grind) fun c hc => by cases hc; exact .inl rfl)
        (ihs fuel steps rest (by grind) (by grind))
  | @member ws k ws' t key v hws hk hws' _ ih =>
    intro fuel rest hfuel hrest
    have hread := ih fuel rest (by grind) hrest
    unfold readMember
    simp only [List.append_assoc, List.cons_append]
    have hcolon : skip (ws' ++ ':' :: (t ++ rest)) = ':' :: (t ++ rest) := by
      rw [skip_append hws', skip_cons rfl]
    rw [skip_append hws, skip_cons rfl]
    simp only [readString_spelled hk, Option.bind_some, hcolon, hread, Option.map_some]
  | @oneMember t m _ ih =>
    rintro fuel (_ | steps) rest hfuel hsteps
    · cases hsteps
    · have hstops : Stops ('}' :: rest) := fun c hc => by cases hc; exact .inr (.inr rfl)
      exact readItems_one (ih fuel _ hfuel hstops) (by decide)
  | @moreMembers t ts m ms _ _ ih ihs =>
    rintro fuel (_ | steps) rest hfuel hsteps
    · cases hsteps
    · rw [List.append_assoc, List.cons_append]
      exact readItems_more (ih fuel _ (by grind) fun c hc => by cases hc; exact .inl rfl)
        (ihs fuel steps rest (by grind) (by grind))

/-- The parser reads a text as the value that it spells, and no other text. -/
theorem parse_eq_some_iff {text : List Char} {v : Json} :
    parse text = some v ↔ Spells (.element v) text := by
  constructor
  · intro h
    unfold parse at h
    split at h
    · cases h
      obtain ⟨t, ht, hspells⟩ := readElement_sound readValue_sound _ _ _ ‹_›
      rw [ht, List.append_nil]
      exact hspells
    · cases h
  · intro h
    have hread := read_of_spells h text.length [] (Nat.le_refl _) fun c hc => by cases hc
    rw [List.append_nil] at hread
    unfold parse
    rw [hread]

/-! ## Writing -/

/-- A character in a string, as `JSON.stringify` writes it. -/
def escape : Char → List Char
  | '"' => ['\\', '"']
  | '\\' => ['\\', '\\']
  | '\x08' => ['\\', 'b']
  | '\x0C' => ['\\', 'f']
  | '\n' => ['\\', 'n']
  | '\r' => ['\\', 'r']
  | '\t' => ['\\', 't']
  | c =>
    if c.toNat < 0x20 then
      ['\\', 'u', '0', '0', hexDigit (c.toNat / 16), hexDigit (c.toNat % 16)]
    else [c]

def writeString (s : List Char) : List Char := '"' :: s.flatMap escape ++ ['"']

theorem unicodeOf_control :
    ∀ n < 32, unicodeOf '0' '0' (hexDigit (n / 16)) (hexDigit (n % 16)) = some (UInt16.ofNat n) := by
  decide

theorem stringText_escape (c : Char) {t : List Char} {s : List UInt16} (h : StringText t s) :
    StringText (escape c ++ t) (utf16 c ++ s) := by
  unfold escape
  split
  · exact .escape rfl h
  · exact .escape rfl h
  · exact .escape rfl h
  · exact .escape rfl h
  · exact .escape rfl h
  · exact .escape rfl h
  · exact .escape rfl h
  split
  · have hunit : utf16 c = [UInt16.ofNat c.toNat] := if_pos (by omega)
    rw [hunit]
    exact .unicode (unicodeOf_control _ ‹_›) h
  · exact .plain (decide_eq_true ⟨Nat.le_of_not_lt ‹_›, ‹_›, ‹_›⟩) h

theorem stringText_flatMap_escape (s : List Char) :
    StringText (s.flatMap escape) (encodeUtf16 s) := by
  unfold encodeUtf16
  induction s with
  | nil => exact .nil
  | cons c s ih => exact stringText_escape c ih

theorem spells_writeString (s : List Char) :
    Spells (.value (.string (encodeUtf16 s))) (writeString s) :=
  .string (stringText_flatMap_escape s)

def writeMember (m : List Char × List Char) : List Char :=
  writeString m.1 ++ ':' :: writeString m.2

def writeMembers : List (List Char × List Char) → List Char
  | [] => []
  | [m] => writeMember m
  | m :: ms => writeMember m ++ ',' :: writeMembers ms

/-- An object of strings, as `JSON.stringify` writes it. -/
def writeObject (ms : List (List Char × List Char)) : List Char := '{' :: writeMembers ms ++ ['}']

theorem spells_element {v : Json} {t : List Char} (h : Spells (.value v) t) :
    Spells (.element v) t := by
  have helement := @Spells.element [] t [] v rfl h rfl
  rw [List.nil_append, List.append_nil] at helement
  exact helement

/-- What a member says that is a string. -/
def stringMember (m : List Char × List Char) : List UInt16 × Json :=
  (encodeUtf16 m.1, .string (encodeUtf16 m.2))

theorem spells_writeMember (m : List Char × List Char) :
    Spells (.member (stringMember m)) (writeMember m) :=
  @Spells.member [] _ [] _ _ _ rfl (stringText_flatMap_escape m.1) rfl
    (spells_element (spells_writeString m.2))

theorem spells_writeMembers {ms : List (List Char × List Char)} (h : ms ≠ []) :
    Spells (.members (ms.map stringMember)) (writeMembers ms) := by
  induction ms using writeMembers.induct with
  | case1 => exact absurd rfl h
  | case2 m => exact .oneMember (spells_writeMember m)
  | case3 m ms hne ih =>
    rw [writeMembers.eq_3 _ _ hne]
    exact .moreMembers (spells_writeMember m) (ih hne)

theorem spells_writeObject (ms : List (List Char × List Char)) :
    Spells (.value (.object (ms.map stringMember))) (writeObject ms) := by
  rcases ms with _ | ⟨m, ms⟩
  · exact @Spells.noMembers [] rfl
  · exact .object (spells_writeMembers (List.cons_ne_nil m ms))

/-! ## Values in JavaScript -/

/-- A double has no number below `2 ^ -1074`, and what is up to half of it becomes zero. -/
def isZero (n : JsonNumber) : Bool :=
  if 0 ≤ n.exponent then n.digits = 0 else n.digits * 2 ^ 1075 ≤ 10 ^ n.exponent.natAbs

def truthy : Json → Bool
  | null => false
  | bool b => b
  | number n => !isZero n
  | string s => s ≠ []
  | array _ | object _ => true

/-- A property, or `none` for `undefined`. Of members with one name, the last one stays. -/
def get (key : String) : Json → Option Json
  | object members => (members.findRev? (·.1 = encodeUtf16 key.toList)).map (·.2)
  | _ => none

end Json

end Text
