import LmsBackend.Schema.ProgramSequences

/-!
# Distinct numbers of certificates

The numbers of a program grow, but `LPAD` leaves six digits of them. From the
millionth on they look like one of the first.
-/

open Numeric

namespace LmsBackend.Schema

/-! ## What tells two identifiers apart -/

theorem append_cons_inj {α : Type} {a : α} {l l' m m' : List α} (hm : a ∉ m) (hm' : a ∉ m')
    (h : l ++ a :: m = l' ++ a :: m') : l = l' ∧ m = m' := by
  rcases List.append_eq_append_iff.mp h with ⟨rest, hl, hrest⟩ | ⟨rest, hl, hrest⟩
  · cases rest with
    | nil => exact ⟨by rw [hl, List.append_nil], (List.cons.inj hrest).2⟩
    | cons b rest =>
      rw [(List.cons.inj hrest).2] at hm
      exact absurd (List.mem_append_right rest List.mem_cons_self) hm
  · cases rest with
    | nil => exact ⟨by rw [hl, List.append_nil], (List.cons.inj hrest).2.symm⟩
    | cons b rest =>
      rw [(List.cons.inj hrest).2] at hm'
      exact absurd (List.mem_append_right rest List.mem_cons_self) hm'

theorem yearText_digits {year : Nat} {ch : Char} (h : ch ∈ (yearText year).toList) :
    ch.isDigit = true := by
  unfold yearText at h
  rw [String.toList_ofList] at h
  exact isDigit_of_mem_leftpad h

theorem numberText_digits {value : Nat} {ch : Char} (h : ch ∈ (numberText value).toList) :
    ch.isDigit = true := by
  unfold numberText at h
  rw [String.toList_ofList] at h
  exact isDigit_of_mem_lpad h

theorem yearText_inj {year year' : Nat} : yearText year = yearText year' ↔ year = year' := by
  unfold yearText
  rw [String.ofList_inj, leftpad_toDigits_inj]

theorem numberText_inj {value value' : Nat} :
    numberText value = numberText value' ↔ leading 6 value = leading 6 value' := by
  unfold numberText
  rw [String.ofList_inj, lpad_toDigits_inj (by decide)]

/-- The parts of an identifier. -/
def certText (programCode year number : String) : String :=
  "IOS-" ++ programCode ++ "-" ++ year ++ "-" ++ number

theorem certText_inj {code code' year year' number number' : String}
    (hyear : ∀ ch ∈ year.toList, ch.isDigit = true)
    (hyear' : ∀ ch ∈ year'.toList, ch.isDigit = true)
    (hnumber : number.length = number'.length)
    (h : certText code year number = certText code' year' number') :
    code = code' ∧ year = year' ∧ number = number' := by
  have hdash : ∀ {year : String}, (∀ ch ∈ year.toList, ch.isDigit = true) → '-' ∉ year.toList := by
    intro year hyear hmem
    cases hyear '-' hmem
  unfold certText at h
  rw [String.ext_iff] at h
  simp only [String.toList_append] at h
  obtain ⟨hfront, hnumber⟩ := List.append_inj' h (by
    rw [String.length_toList, String.length_toList, hnumber])
  have hfront := List.append_cancel_right hfront
  have hassoc : ∀ code year : String, "IOS-".toList ++ code.toList ++ "-".toList ++ year.toList =
      ("IOS-".toList ++ code.toList) ++ '-' :: year.toList := fun code year => by
    rw [List.append_assoc]
    rfl
  rw [hassoc, hassoc] at hfront
  obtain ⟨hcode, hyear⟩ := append_cons_inj (hdash hyear) (hdash hyear') hfront
  exact ⟨String.ext (List.append_cancel_left hcode), String.ext hyear, String.ext hnumber⟩

theorem certId_inj {code code' : String} {year year' value value' : Nat} :
    certId code year value = certId code' year' value' ↔
      code = code' ∧ year = year' ∧ leading 6 value = leading 6 value' := by
  rw [← yearText_inj, ← numberText_inj]
  constructor
  · intro h
    refine certText_inj (fun _ => yearText_digits) (fun _ => yearText_digits) ?_ h
    rw [length_numberText, length_numberText]
  · rintro ⟨rfl, hyear, hnumber⟩
    unfold certId
    rw [hyear, hnumber]

/-! ## The form -/

/-- `IOS-{PROG}-{YYYY}-{NNNNNN}` -/
def Formed (programCode id : String) : Prop :=
  ∃ year number, id = certText programCode year number ∧ year.length = 4 ∧ number.length = 6 ∧
    (∀ ch ∈ year.toList, ch.isDigit = true) ∧ ∀ ch ∈ number.toList, ch.isDigit = true

theorem length_yearText_iff {year : Nat} : (yearText year).length = 4 ↔ year ≤ 9999 := by
  have hdigits : (Nat.toDigits 10 year).length ≤ 4 ↔ year < 10 ^ 4 :=
    Nat.length_toDigits_le_iff (by decide) (by decide)
  unfold yearText
  rw [String.length_ofList, List.length_leftpad]
  omega

theorem formed_certId_iff {programCode : String} {year value : Nat} :
    Formed programCode (certId programCode year value) ↔ year ≤ 9999 := by
  rw [← length_yearText_iff]
  constructor
  · rintro ⟨year', number, hid, hyear, hnumber, hdigits, -⟩
    obtain ⟨-, rfl, -⟩ := certText_inj (fun _ => yearText_digits) hdigits
      ((length_numberText value).trans hnumber.symm) hid
    exact hyear
  · intro hyear
    exact ⟨_, _, rfl, hyear, length_numberText value, fun _ => yearText_digits,
      fun _ => numberText_digits⟩

/-! ## One INSERT after the other -/

/-- The identifier that the row gets, when it gets one. -/
def Insert.certId (s : Insert) : String :=
  Schema.certId (s.programCode.getD "") s.year s.value

def Insert.Fits (s : Insert) : Prop := Schema.Fits (s.programCode.getD "") s.year

section

variable [Collation]

/-- For a certificate of a program that has a sequence. -/
def Insert.Listed (s : Insert) : Prop := ∃ code, s.programCode = some code ∧ Schema.Listed code

theorem insert_draws {db db' : Database} {code name : String} {year value : Nat}
    {answer : Except Err String} (hname : sequenceOf code = some name)
    (h : db.insert ⟨some code, year, value⟩ = some (db', answer)) :
    db.last name < value ∧ db'.last = Function.update db.last name value := by
  unfold Database.insert at h
  by_cases hvalue : db.last name < value
  · refine ⟨hvalue, ?_⟩
    rw [setCertSequence_draws hname hvalue] at h
    split at h
    · cases h
    · rename_i hset
      split at hset
      · cases hset
        cases h
        rfl
      · cases hset
    · rename_i hset
      split at hset
      · cases hset
      · cases hset
    · rename_i hset
      split at hset
      · cases hset
      · cases hset
        split at h
        · cases h
          rfl
        · cases h
          rfl
  · have hnone : setCertSequence ⟨some code, year, value⟩ db.last = none := by
      unfold setCertSequence
      simp only [hname]
      exact if_pos (Nat.not_lt.mp hvalue)
    rw [hnone] at h
    cases h

theorem insert_cases {db db' : Database} {s : Insert} {answer : Except Err String}
    (hlisted : s.Listed) (h : db.insert s = some (db', answer)) :
    (answer = .ok s.certId ∧ s.Fits ∧ s.certId ∉ db.certIds ∧
      db'.certIds = db.certIds ++ [s.certId]) ∨
    (∃ e, answer = .error e) ∧ ¬(s.Fits ∧ s.certId ∉ db.certIds) := by
  obtain ⟨programCode, year, value⟩ := s
  obtain ⟨code, rfl, hcode⟩ := hlisted
  obtain ⟨name, hname⟩ := Option.isSome_iff_exists.mp (sequenceOf_isSome.mpr hcode)
  have hfits : Insert.Fits ⟨some code, year, value⟩ ↔ ¬50 < (Schema.certId code year value).length :=
    fits_iff
  have hid : Insert.certId ⟨some code, year, value⟩ = Schema.certId code year value := rfl
  rw [hfits, hid]
  have hvalue := (insert_draws hname h).1
  unfold Database.insert at h
  rw [setCertSequence_draws hname hvalue] at h
  by_cases hlong : 50 < (Schema.certId code year value).length
  · rw [if_pos hlong] at h
    cases h
    exact .inr ⟨⟨_, rfl⟩, fun hok => hok.1 hlong⟩
  · simp only [if_neg hlong] at h
    split at h
    · cases h
      exact .inr ⟨⟨_, rfl⟩, fun hok => hok.2 ‹_›⟩
    · cases h
      exact .inl ⟨rfl, hlong, ‹_›, rfl⟩

theorem insertAll_cons {db : Database} {s : Insert} {rest : List Insert}
    {answers : List (Except Err String)} (h : db.insertAll (s :: rest) = some answers) :
    ∃ db' answer answers', db.insert s = some (db', answer) ∧
      db'.insertAll rest = some answers' ∧ answers = answer :: answers' := by
  unfold Database.insertAll at h
  split at h
  · cases h
  · obtain ⟨answers', hrest, rfl⟩ := Option.map_eq_some_iff.mp h
    exact ⟨_, _, answers', ‹_›, hrest, rfl⟩

/-- Every INSERT gets an identifier when all have room and no two are the same. -/
theorem insertAll_isOk_iff {db : Database} {inserts : List Insert}
    {answers : List (Except Err String)} (hdb : db.certIds.Nodup)
    (hlisted : ∀ s ∈ inserts, s.Listed) (h : db.insertAll inserts = some answers) :
    (∀ answer ∈ answers, answer.isOk = true) ↔
      (∀ s ∈ inserts, s.Fits) ∧ (db.certIds ++ inserts.map Insert.certId).Nodup := by
  induction inserts generalizing db answers with
  | nil =>
    cases h
    simpa using hdb
  | cons s rest ih =>
    obtain ⟨db', answer, answers', hinsert, hrest, rfl⟩ := insertAll_cons h
    obtain ⟨hs, hlisted⟩ := List.forall_mem_cons.mp hlisted
    rw [List.forall_mem_cons, List.forall_mem_cons]
    rcases insert_cases hs hinsert with ⟨rfl, hfits, hnew, hids⟩ | ⟨⟨e, rfl⟩, hnot⟩
    · have hdb' : db'.certIds.Nodup := by
        rw [hids]
        exact hdb.append (List.nodup_singleton _) (List.disjoint_singleton.mpr hnew)
      rw [ih hdb' hlisted hrest, hids, List.append_assoc]
      exact ⟨fun hok => ⟨⟨hfits, hok.2.1⟩, hok.2.2⟩, fun hok => ⟨rfl, hok.1.2, hok.2⟩⟩
    · constructor
      · rintro ⟨hok, -⟩
        cases hok
      · rintro ⟨⟨hfits, -⟩, hnodup⟩
        refine absurd ⟨hfits, fun hmem => ?_⟩ hnot
        exact (List.nodup_append.mp hnodup).2.2 _ hmem _ List.mem_cons_self rfl

theorem insertAll_answers {db : Database} {inserts : List Insert}
    {answers : List (Except Err String)} (hlisted : ∀ s ∈ inserts, s.Listed)
    (h : db.insertAll inserts = some answers) (hok : ∀ answer ∈ answers, answer.isOk = true) :
    answers = inserts.map (.ok ·.certId) := by
  induction inserts generalizing db answers with
  | nil =>
    cases h
    rfl
  | cons s rest ih =>
    obtain ⟨db', answer, answers', hinsert, hrest, rfl⟩ := insertAll_cons h
    obtain ⟨hs, hlisted⟩ := List.forall_mem_cons.mp hlisted
    obtain ⟨hfirst, hothers⟩ := List.forall_mem_cons.mp hok
    rcases insert_cases hs hinsert with ⟨rfl, -⟩ | ⟨⟨e, rfl⟩, -⟩
    · rw [List.map_cons, ih hlisted hrest hothers]
    · cases hfirst

/-- What is drawn for a code grows. -/
theorem insertAll_grows {db : Database} {inserts : List Insert}
    {answers : List (Except Err String)} (hlisted : ∀ s ∈ inserts, s.Listed)
    (h : db.insertAll inserts = some answers) :
    (∀ s ∈ inserts, ∀ code name, s.programCode = some code → sequenceOf code = some name →
      db.last name < s.value) ∧
    inserts.Pairwise fun s s' => s.programCode = s'.programCode → s.value < s'.value := by
  induction inserts generalizing db answers with
  | nil => exact ⟨fun _ hs => absurd hs List.not_mem_nil, .nil⟩
  | cons s rest ih =>
    obtain ⟨db', answer, answers', hinsert, hrest, rfl⟩ := insertAll_cons h
    obtain ⟨hs, hlisted⟩ := List.forall_mem_cons.mp hlisted
    obtain ⟨hlater, hpairs⟩ := ih hlisted hrest
    obtain ⟨programCode, year, value⟩ := s
    obtain ⟨code, rfl, hcode⟩ := hs
    obtain ⟨name, hname⟩ := Option.isSome_iff_exists.mp (sequenceOf_isSome.mpr hcode)
    obtain ⟨hvalue, hlast⟩ := insert_draws hname hinsert
    have hlast_le : ∀ other, db.last other ≤ db'.last other := by
      intro other
      rw [hlast]
      by_cases hother : other = name
      · subst hother
        rw [Function.update_self]
        exact Nat.le_of_lt hvalue
      · rw [Function.update_of_ne hother]
    refine ⟨fun s' hs' code' name' hcode' hname' => ?_, List.pairwise_cons.mpr ⟨?_, hpairs⟩⟩
    · rcases List.mem_cons.mp hs' with rfl | hs'
      · cases hcode'
        cases hname.symm.trans hname'
        exact hvalue
      · exact Nat.lt_of_le_of_lt (hlast_le name') (hlater s' hs' code' name' hcode' hname')
    · intro s' hs' hsame
      have hgrown := hlater s' hs' code name hsame.symm hname
      rwa [hlast, Function.update_self] at hgrown

/-! ## Numbers of one program and year -/

/-- What is promised of the answers. -/
structure Numbered (inserts : List Insert) (answers : List (Except Err String)) : Prop where
  obtained : ∀ answer ∈ answers, answer.isOk = true
  distinct : answers.Nodup
  formed : List.Forall₂ (fun s answer => ∀ id, answer = .ok id → Formed (s.programCode.getD "") id)
    inserts answers

/-- Two numbers that begin alike are never drawn for one code in one year. -/
structure TellApart (inserts : List Insert) : Prop where
  fits : ∀ s ∈ inserts, s.Fits
  year : ∀ s ∈ inserts, s.year ≤ 9999
  leading : inserts.Pairwise fun s s' => s.programCode = s'.programCode → s.year = s'.year →
    leading 6 s.value ≠ leading 6 s'.value

theorem certIds_nodup_iff {inserts : List Insert} (hlisted : ∀ s ∈ inserts, s.Listed) :
    (inserts.map Insert.certId).Nodup ↔ inserts.Pairwise fun s s' =>
      s.programCode = s'.programCode → s.year = s'.year → leading 6 s.value ≠ leading 6 s'.value := by
  unfold List.Nodup
  rw [List.pairwise_map]
  refine List.Pairwise.iff_of_mem fun {s s'} hs hs' => ?_
  obtain ⟨code, hcode, -⟩ := hlisted s hs
  obtain ⟨code', hcode', -⟩ := hlisted s' hs'
  unfold Insert.certId
  rw [hcode, hcode', Option.getD_some, Option.getD_some, Ne, certId_inj, Option.some_inj]
  tauto

/-- Numbers below a million do not begin alike. -/
theorem tellApart_of_lt {inserts : List Insert} {answers : List (Except Err String)}
    (hlisted : ∀ s ∈ inserts, s.Listed) (h : Database.empty.insertAll inserts = some answers)
    (hfits : ∀ s ∈ inserts, s.Fits) (hyear : ∀ s ∈ inserts, s.year ≤ 9999)
    (hvalue : ∀ s ∈ inserts, s.value < 10 ^ 6) : TellApart inserts := by
  refine ⟨hfits, hyear, ?_⟩
  have hgrows := (insertAll_grows hlisted h).2
  refine hgrows.imp_of_mem fun {s s'} hs hs' hlt hcode _ => ?_
  rw [leading_of_lt (hvalue s hs), leading_of_lt (hvalue s' hs')]
  exact Nat.ne_of_lt (hlt hcode)

/-- The identifiers are distinct and have their form as long as numbers that begin alike are not
drawn for one code in one year. -/
theorem numbered_iff {inserts : List Insert} {answers : List (Except Err String)}
    (hlisted : ∀ s ∈ inserts, s.Listed) (h : Database.empty.insertAll inserts = some answers) :
    Numbered inserts answers ↔ TellApart inserts := by
  have hok := insertAll_isOk_iff List.nodup_nil hlisted h
  rw [show Database.empty.certIds = [] from rfl, List.nil_append, certIds_nodup_iff hlisted] at hok
  constructor
  · rintro ⟨hobtained, -, hformed⟩
    obtain ⟨hfits, hleading⟩ := hok.mp hobtained
    refine ⟨hfits, fun s hs => ?_, hleading⟩
    rw [insertAll_answers hlisted h hobtained, List.forall₂_map_right_iff, List.forall₂_same] at hformed
    exact formed_certId_iff.mp (hformed s hs _ rfl)
  · rintro ⟨hfits, hyear, hleading⟩
    have hobtained := hok.mpr ⟨hfits, hleading⟩
    have hanswers := insertAll_answers hlisted h hobtained
    refine ⟨hobtained, ?_, ?_⟩
    · have hmap : answers = (inserts.map Insert.certId).map .ok := by
        rw [hanswers, List.map_map]
        rfl
      rw [hmap]
      exact ((certIds_nodup_iff hlisted).mpr hleading).map fun _ _ => Except.ok.inj
    · rw [hanswers, List.forall₂_map_right_iff, List.forall₂_same]
      rintro s hs id ⟨⟩
      exact formed_certId_iff.mpr (hyear s hs)

end

/-! ## Three numbers of one year -/

section

attribute [local instance] cCollation

/-- The draws between them are of inserts that were rolled back. -/
def drawn (values : List Nat) : List Insert := values.map (⟨some "PSM", 2026, ·⟩)

theorem drawn_listed (values : List Nat) : ∀ s ∈ drawn values, s.Listed := by
  intro s hs
  obtain ⟨value, -, rfl⟩ := List.mem_map.mp hs
  exact ⟨"PSM", rfl, psm_listed⟩

theorem numbered_iff_three : ∃ answers,
    Database.empty.insertAll (drawn [1, 100000, 999999]) = some answers ∧
      (Numbered (drawn [1, 100000, 999999]) answers ↔ TellApart (drawn [1, 100000, 999999])) := by
  have hrun : ∃ answers,
      Database.empty.insertAll (drawn [1, 100000, 999999]) = some answers := ⟨_, rfl⟩
  obtain ⟨answers, hrun⟩ := hrun
  exact ⟨answers, hrun, numbered_iff (drawn_listed _) hrun⟩

/-- The millionth number has the text of another. The INSERT fails. -/
theorem millionth_refused : ∃ answers,
    Database.empty.insertAll (drawn [100000, 1000000]) = some answers ∧
      answers = [.ok "IOS-PSM-2026-100000", .error .uniqueViolation] ∧
      ¬Numbered (drawn [100000, 1000000]) answers := by
  have hrun : Database.empty.insertAll (drawn [100000, 1000000]) =
      some [.ok "IOS-PSM-2026-100000", .error .uniqueViolation] := by
    decide
  refine ⟨_, hrun, rfl, fun h => ?_⟩
  cases h.obtained (.error .uniqueViolation) (by simp)

end

end LmsBackend.Schema
