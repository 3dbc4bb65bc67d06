import LmsBackend.Numeric.Decimal
import Mathlib.Logic.Function.Basic

/-!
# The numbers of certificates

What an INSERT into `issued_certificates` does: the trigger `set_cert_sequence`
draws from the sequence of the program and makes `cert_id`, which has a unique
index. Left out are the policy of the table and its other columns.
-/

open Numeric

namespace LmsBackend.Schema

/-- `LOWER` depends on the collation of the database. -/
class Collation where
  lower : String → String

inductive Err where
  /-- relation does not exist -/
  | undefinedTable
  /-- value too long for type character varying -/
  | stringTooLong
  | uniqueViolation
  | foreignKeyViolation
  deriving DecidableEq, Repr

/-! ## Names -/

/-- `scanner_isspace` -/
def isSpace (ch : Char) : Bool :=
  ch = ' ' ∨ ch = '\t' ∨ ch = '\n' ∨ ch = '\r' ∨ ch = '\x0c'

def inName (ch : Char) : Bool := !isSpace ch && ch ≠ '.'

/-- What a text names: spaces can follow the name, and its capitals become small. With a dot it
would be a schema, and there is none whose name starts like that of a sequence. -/
def plainName (text : List Char) : Option (List Char) :=
  if (text.dropWhile inName).all isSpace then some ((text.takeWhile inName).map Char.toLower)
  else none

/-- `truncate_identifier`: the characters that the bytes have room for. -/
def clip : Nat → List Char → List Char
  | _, [] => []
  | bytes, ch :: rest => if ch.utf8Size ≤ bytes then ch :: clip (bytes - ch.utf8Size) rest else []

/-- The relation of a text as a `regclass`. -/
def regclass (text : String) : Option String :=
  (plainName text.toList).map fun name => String.ofList (clip 63 name)

def programCodes : List String := ["PSM", "PSPO", "PSD", "PAL", "SPS", "PMP"]

def seqPrefix : String := "cert_seq_"

/-- `cert_seq_${code.toLowerCase()}` -/
def sequenceText (code : String) : List Char := seqPrefix.toList ++ code.toList.map Char.toLower

/-- The sequences of the first migration. -/
def sequences : List String := programCodes.map fun code => String.ofList (sequenceText code)

section

variable [Collation]

/-- `'cert_seq_' || LOWER(v_program_code)` -/
def seqName (programCode : String) : String := seqPrefix ++ Collation.lower programCode

/-- The sequence that `nextval` draws from. -/
def sequenceOf (programCode : String) : Option String :=
  (regclass (seqName programCode)).filter (· ∈ sequences)

end

/-! ## The trigger -/

/-- `TO_CHAR(NOW(), 'YYYY')` -/
def yearText (year : Nat) : String := String.ofList ((Nat.toDigits 10 year).leftpad 4 '0')

/-- `LPAD(v_seq::TEXT, 6, '0')` -/
def numberText (value : Nat) : String := String.ofList (lpad 6 '0' (Nat.toDigits 10 value))

def certId (programCode : String) (year value : Nat) : String :=
  "IOS-" ++ programCode ++ "-" ++ yearText year ++ "-" ++ numberText value

/-- An INSERT. -/
structure Insert where
  /-- What the SELECT finds, which is NULL when no certificate has the id. -/
  programCode : Option String
  /-- The year of `NOW()`. -/
  year : Nat
  /-- What `nextval` gives. -/
  value : Nat
  deriving DecidableEq, Repr

/-- The last values of the sequences, by name. -/
abbrev Sequences := String → Nat

section

variable [Collation]

/-- The `cert_id` that the trigger sets. `none` when `nextval` cannot give the value. -/
def setCertSequence (s : Insert) (last : Sequences) :
    Option (Sequences × Except Err (Option String)) :=
  match s.programCode with
  -- A text with a part that is NULL is NULL, and `nextval` of it too.
  | none => some (last, .ok none)
  | some programCode =>
    match sequenceOf programCode with
    | none => some (last, .error .undefinedTable)
    | some name =>
      if s.value ≤ last name then none
      else
        let last := Function.update last name s.value
        let certId := certId programCode s.year s.value
        -- The column is VARCHAR(50), and the assignment checks it.
        if 50 < certId.length then some (last, .error .stringTooLong)
        else some (last, .ok (some certId))

structure Database where
  last : Sequences
  certIds : List String

/-- The database after the migrations. -/
def Database.empty : Database := ⟨fun _ => 0, []⟩

/-- A draw is never taken back, not by a failure either. -/
def Database.insert (db : Database) (s : Insert) : Option (Database × Except Err String) :=
  match setCertSequence s db.last with
  | none => none
  | some (last, .error e) => some ({ db with last := last }, .error e)
  | some (last, .ok none) => some ({ db with last := last }, .error .foreignKeyViolation)
  | some (last, .ok (some certId)) =>
    if certId ∈ db.certIds then some ({ db with last := last }, .error .uniqueViolation)
    else some (⟨last, db.certIds ++ [certId]⟩, .ok certId)

/-- The answers to one INSERT after the other. -/
def Database.insertAll : Database → List Insert → Option (List (Except Err String))
  | _, [] => some []
  | db, s :: rest =>
    match db.insert s with
    | none => none
    | some (db, answer) => (db.insertAll rest).map (answer :: ·)

end

/-! ## Sequences and codes -/

theorem clip_cases (bytes : Nat) (l : List Char) :
    clip bytes l = l ∨ bytes < ((clip bytes l).map Char.utf8Size).sum + 4 := by
  induction l generalizing bytes with
  | nil => exact .inl rfl
  | cons ch rest ih =>
    have hsize := ch.utf8Size_le_four
    unfold clip
    split
    · rcases ih (bytes - ch.utf8Size) with hrest | hrest
      · left
        rw [hrest]
      · right
        rw [List.map_cons, List.sum_cons]
        omega
    · right
      simp only [List.map_nil, List.sum_nil]
      omega

theorem clip_of_le {bytes : Nat} {l : List Char} (h : (l.map Char.utf8Size).sum ≤ bytes) :
    clip bytes l = l := by
  induction l generalizing bytes with
  | nil => rfl
  | cons ch rest ih =>
    rw [List.map_cons, List.sum_cons] at h
    unfold clip
    rw [if_pos (by omega), ih (by omega)]

theorem plainName_append {l t : List Char} (hl : ∀ ch ∈ l, inName ch = true)
    (hlower : l.map Char.toLower = l) : plainName (l ++ t) = (plainName t).map (l ++ ·) := by
  unfold plainName
  rw [List.dropWhile_append_of_pos hl, List.takeWhile_append_of_pos hl, List.map_append, hlower]
  split <;> rfl

theorem mem_sequences {text : List Char} :
    String.ofList text ∈ sequences ↔ ∃ code ∈ programCodes, text = sequenceText code := by
  unfold sequences
  rw [List.mem_map]
  refine exists_congr fun code => and_congr_right fun _ => ?_
  rw [String.ofList_inj]
  exact eq_comm

theorem sequenceText_short :
    ∀ code ∈ programCodes, ((sequenceText code).map Char.utf8Size).sum ≤ 59 := by
  decide

section

variable [Collation]

/-- The code in small letters, without the spaces at its end. -/
def program (programCode : String) : Option (List Char) :=
  plainName (Collation.lower programCode).toList

theorem regclass_seqName (programCode : String) : regclass (seqName programCode) =
    (program programCode).map fun name => String.ofList (clip 63 (seqPrefix.toList ++ name)) := by
  unfold regclass seqName program
  rw [String.toList_append, plainName_append (List.all_eq_true.mp (by decide)) (by decide),
    Option.map_map]
  rfl

def Listed (programCode : String) : Prop :=
  ∃ code ∈ programCodes, program programCode = some (code.toList.map Char.toLower)

theorem sequenceOf_eq_some {programCode name : String} : sequenceOf programCode = some name ↔
    ∃ code ∈ programCodes, program programCode = some (code.toList.map Char.toLower) ∧
      name = String.ofList (sequenceText code) := by
  unfold sequenceOf
  rw [regclass_seqName, Option.filter_eq_some_iff]
  constructor
  · rintro ⟨hname, hmem⟩
    obtain ⟨text, htext, rfl⟩ := Option.map_eq_some_iff.mp hname
    obtain ⟨code, hcode, hclip⟩ := mem_sequences.mp (of_decide_eq_true hmem)
    have hshort := sequenceText_short code hcode
    refine ⟨code, hcode, ?_, congrArg String.ofList hclip⟩
    rcases clip_cases 63 (seqPrefix.toList ++ text) with hall | hlong
    · rw [htext, List.append_cancel_left (hall.symm.trans hclip)]
    · rw [hclip] at hlong
      omega
  · rintro ⟨code, hcode, hprogram, rfl⟩
    have hclip : clip 63 (sequenceText code) = sequenceText code :=
      clip_of_le (by have := sequenceText_short code hcode; omega)
    refine ⟨?_, decide_eq_true (mem_sequences.mpr ⟨code, hcode, rfl⟩)⟩
    rw [hprogram, Option.map_some]
    exact congrArg (some ∘ String.ofList) hclip

/-- A code has a sequence when it is in the list, but for capitals and the spaces at its end. -/
theorem sequenceOf_isSome {programCode : String} :
    (sequenceOf programCode).isSome = true ↔ Listed programCode := by
  rw [Option.isSome_iff_exists]
  constructor
  · rintro ⟨name, hname⟩
    obtain ⟨code, hcode, hprogram, -⟩ := sequenceOf_eq_some.mp hname
    exact ⟨code, hcode, hprogram⟩
  · rintro ⟨code, hcode, hprogram⟩
    exact ⟨_, sequenceOf_eq_some.mpr ⟨code, hcode, hprogram, rfl⟩⟩

/-- Two codes share a sequence when they are one but for capitals and the spaces at their end. -/
theorem sequenceOf_eq_iff {programCode programCode' : String} (h : Listed programCode) :
    sequenceOf programCode = sequenceOf programCode' ↔
      program programCode = program programCode' := by
  obtain ⟨code, hcode, hprogram⟩ := h
  have hname := sequenceOf_eq_some.mpr ⟨code, hcode, hprogram, rfl⟩
  constructor
  · intro heq
    obtain ⟨code', -, hprogram', htext⟩ := sequenceOf_eq_some.mp (heq.symm.trans hname)
    have hcodes : sequenceText code = sequenceText code' := by
      simpa using congrArg String.toList htext
    rw [hprogram, hprogram', List.append_cancel_left hcodes]
  · intro heq
    rw [hname, sequenceOf_eq_some.mpr ⟨code, hcode, heq ▸ hprogram, rfl⟩]

end

end LmsBackend.Schema
