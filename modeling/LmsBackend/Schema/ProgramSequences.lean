import LmsBackend.Content.ProgramCodes
import LmsBackend.Schema.CertSequence

/-!
# A sequence for every program

The migration makes a sequence for each of six programs. The API takes any code
of up to 50 characters, and the trigger looks for its sequence.
-/

namespace LmsBackend.Schema

open Content (Calls createWith emptyWorld followCalls)

/-! ## What the trigger needs of a code -/

/-- The identifier of the certificate has room in its column. -/
def Fits (programCode : String) (year : Nat) : Prop :=
  programCode.length + (yearText year).length ≤ 38

theorem length_numberText (value : Nat) : (numberText value).length = 6 := by
  unfold numberText
  rw [String.length_ofList, Numeric.length_lpad]

theorem fits_iff {programCode : String} {year value : Nat} :
    Fits programCode year ↔ ¬50 < (certId programCode year value).length := by
  have hlength : (certId programCode year value).length =
      programCode.length + (yearText year).length + 12 := by
    unfold certId
    simp only [String.length_append, length_numberText]
    have hios : "IOS-".length = 4 := rfl
    have hdash : "-".length = 1 := rfl
    omega
  unfold Fits
  omega

section

variable [Collation]

/-- In this year an INSERT for a certificate with the code does not fail in the trigger. -/
def Awardable (programCode : String) (year : Nat) : Prop :=
  ∀ value last last' r,
    setCertSequence ⟨some programCode, year, value⟩ last = some (last', r) → r.isOk = true

/-- What is drawn for both codes comes from one sequence. -/
def ShareSequence (programCode programCode' : String) : Prop :=
  ∃ name, sequenceOf programCode = some name ∧ sequenceOf programCode' = some name

theorem setCertSequence_draws {programCode name : String} {year value : Nat} {last : Sequences}
    (hname : sequenceOf programCode = some name) (hvalue : last name < value) :
    setCertSequence ⟨some programCode, year, value⟩ last =
      if 50 < (certId programCode year value).length then
        some (Function.update last name value, .error .stringTooLong)
      else some (Function.update last name value, .ok (some (certId programCode year value))) := by
  unfold setCertSequence
  simp only [hname]
  exact if_neg (Nat.not_le.mpr hvalue)

theorem awardable_code_iff {programCode : String} {year : Nat} :
    Awardable programCode year ↔ Listed programCode ∧ Fits programCode year := by
  rw [← sequenceOf_isSome]
  constructor
  · intro h
    cases hname : sequenceOf programCode with
    | none =>
      have hfails : setCertSequence ⟨some programCode, year, 0⟩ (fun _ => 0) =
          some (fun _ => 0, .error .undefinedTable) := by
        unfold setCertSequence
        simp only [hname]
      cases h _ _ _ _ hfails
    | some name =>
      refine ⟨rfl, (@fits_iff _ _ 1).mpr fun hlong => ?_⟩
      have hfails := @setCertSequence_draws _ _ _ year _ (fun _ => 0) hname Nat.one_pos
      rw [if_pos hlong] at hfails
      cases h _ _ _ _ hfails
  · rintro ⟨hname, hfits⟩ value last last' r h
    obtain ⟨name, hname⟩ := Option.isSome_iff_exists.mp hname
    unfold setCertSequence at h
    simp only [hname, if_neg (fits_iff.mp hfits)] at h
    split at h
    · cases h
    · cases h
      rfl

theorem shareSequence_iff {programCode programCode' : String} (h : Listed programCode) :
    ShareSequence programCode programCode' ↔ program programCode = program programCode' := by
  rw [← sequenceOf_eq_iff h]
  obtain ⟨name, hname⟩ := Option.isSome_iff_exists.mp (sequenceOf_isSome.mpr h)
  constructor
  · rintro ⟨name', h₁, h₂⟩
    rw [h₁, h₂]
  · intro heq
    exact ⟨name, hname, heq ▸ hname⟩

/-- Every certificate can be awarded, and programs do not share a sequence. -/
structure AllAwardable (w : Content.World) (year : Nat) : Prop where
  awardable : ∀ c ∈ w.certificates.rows, Awardable c.programCode year
  apart : ∀ c ∈ w.certificates.rows, ∀ c' ∈ w.certificates.rows, c.programCode ≠ c'.programCode →
    ¬ShareSequence c.programCode c'.programCode

/-- Each code is one of the six and is not too long, and no two differ only in capitals and the
spaces at their end. -/
theorem allAwardable_iff {w : Content.World} {year : Nat} :
    AllAwardable w year ↔
      (∀ c ∈ w.certificates.rows, Listed c.programCode ∧ Fits c.programCode year) ∧
        ∀ c ∈ w.certificates.rows, ∀ c' ∈ w.certificates.rows,
          program c.programCode = program c'.programCode → c.programCode = c'.programCode := by
  constructor
  · rintro ⟨hawardable, hapart⟩
    have hlisted := fun c hc => awardable_code_iff.mp (hawardable c hc)
    refine ⟨hlisted, fun c hc c' hc' hprogram => ?_⟩
    by_contra hne
    exact hapart c hc c' hc' hne ((shareSequence_iff (hlisted c hc).1).mpr hprogram)
  · rintro ⟨hlisted, hinj⟩
    refine ⟨fun c hc => awardable_code_iff.mpr (hlisted c hc), fun c hc c' hc' hne hshare => ?_⟩
    exact hne (hinj c hc c' hc' ((shareSequence_iff (hlisted c hc).1).mp hshare))

end

/-! ## A program without a sequence, and two with one -/

section

/-- The collation `C`, which knows the letters of ASCII. -/
@[reducible] def cCollation : Collation :=
  ⟨fun s => String.ofList (s.toList.map Char.toLower)⟩

attribute [local instance] cCollation

theorem abc_not_listed : ¬Listed "ABC" := by
  rw [← sequenceOf_isSome]
  decide

theorem psm_listed : Listed "PSM" := sequenceOf_isSome.mp (by decide)

theorem not_allAwardable :
    (∃ w, Calls emptyWorld [.create (createWith "ABC")] w ∧ ¬AllAwardable w 2026) ∧
      ∃ w, Calls emptyWorld [.create (createWith "PSM"), .create (createWith "psm")] w ∧
        ¬AllAwardable w 2026 := by
  constructor
  · have hrun : ∃ w,
        followCalls [(.create (createWith "ABC"), [some "", some "abc"])] emptyWorld = some w ∧
        w.certificates.rows.map (·.programCode) = ["ABC"] := ⟨_, rfl, rfl⟩
    obtain ⟨w, hw, hcodes⟩ := hrun
    refine ⟨w, Content.calls_of_follow hw, fun h => ?_⟩
    obtain ⟨c, hc, hcode⟩ : ∃ c ∈ w.certificates.rows, c.programCode = "ABC" :=
      List.mem_map.mp (hcodes ▸ List.mem_singleton.mpr rfl)
    have hawardable := h.awardable c hc
    rw [hcode] at hawardable
    exact abc_not_listed (awardable_code_iff.mp hawardable).1
  · have hrun : ∃ w,
        followCalls [(.create (createWith "PSM"), [some "", some "capitals"]),
          (.create (createWith "psm"), [some "", some "small"])] emptyWorld = some w ∧
        w.certificates.rows.map (·.programCode) = ["PSM", "psm"] := ⟨_, rfl, rfl⟩
    obtain ⟨w, hw, hcodes⟩ := hrun
    refine ⟨w, Content.calls_of_follow hw, fun h => ?_⟩
    have hmem : ∀ code ∈ ["PSM", "psm"], ∃ c ∈ w.certificates.rows, c.programCode = code :=
      fun code hcode => List.mem_map.mp (hcodes ▸ hcode)
    obtain ⟨c, hc, hcapitals⟩ := hmem "PSM" (by decide)
    obtain ⟨c', hc', hsmall⟩ := hmem "psm" (by decide)
    have hapart := h.apart c hc c' hc'
    rw [hcapitals, hsmall] at hapart
    exact hapart (by decide) ((shareSequence_iff psm_listed).mpr (by decide))

end

end LmsBackend.Schema
