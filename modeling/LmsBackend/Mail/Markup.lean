import LmsBackend.Mail.EscapeHtml
import LmsBackend.Text.Holes

/-!
# The markup of a rendered page

The values of a page fill holes that its file alone and the truth of the conditions cut. No value
has markup, and none is read as a template again.
-/

open Text

namespace LmsBackend.Mail

/-- The characters that begin and end tags, and quoted attributes. -/
def isMarkup (c : Char) : Bool := c ∈ ['<', '>', '"', '\'']

/-- The keys that one of the two replacements tests. -/
def blockKeys (kind : Kind) (template : List Char) : List (List Char) :=
  (parts kind.pattern template).flatMap fun p =>
    match p with
    | .hole [key, _] => [key]
    | _ => []

/-- The keys of the blocks of a file, as `renderConditionals` comes to them. -/
def testedKeys (html : List Char) (vars : TemplateVars) : List (List Char) :=
  blockKeys .ifBlock html ++ blockKeys .unlessBlock (renderBlocks .ifBlock vars html)

/-- The same blocks of the file are shown. -/
def SameTruth (html : List Char) (vars vars' : TemplateVars) : Prop :=
  ∀ key ∈ testedKeys html vars, isTruthy (vars.get key) = isTruthy (vars'.get key)

/-- The holes of the page, and what stands around them. -/
def pageParts (html : List Char) (vars : TemplateVars) : List (Slot Char) :=
  parts tokenPattern (renderConditionals html vars)

theorem blockText_congr {vars vars' : TemplateVars} {kind : Kind} {caps : List (List Char)}
    (h : ∀ key body, caps = [key, body] → isTruthy (vars.get key) = isTruthy (vars'.get key)) :
    blockText kind vars caps = blockText kind vars' caps := by
  unfold blockText
  split
  · rename_i key body
    have hkey := h key body rfl
    cases kind with
    | ifBlock => rw [Kind.shows, Kind.shows, hkey]
    | unlessBlock => rw [Kind.shows, Kind.shows, hkey]
  · rfl

theorem renderBlocks_congr {vars vars' : TemplateVars} {kind : Kind} {template : List Char}
    (h : ∀ key ∈ blockKeys kind template, isTruthy (vars.get key) = isTruthy (vars'.get key)) :
    renderBlocks kind vars template = renderBlocks kind vars' template := by
  unfold renderBlocks
  rw [replaceAll_eq_fill, replaceAll_eq_fill]
  apply List.flatMap_congr
  intro p hp
  rcases p with c | caps
  · rfl
  · apply blockText_congr
    rintro key body rfl
    exact h key (List.mem_flatMap.mpr ⟨_, hp, List.mem_singleton.mpr rfl⟩)

theorem pageParts_congr {html : List Char} {vars vars' : TemplateVars}
    (h : SameTruth html vars vars') : pageParts html vars = pageParts html vars' := by
  have hif : renderBlocks .ifBlock vars html = renderBlocks .ifBlock vars' html :=
    renderBlocks_congr fun key hkey => h key (List.mem_append_left _ hkey)
  unfold pageParts renderConditionals
  rw [renderBlocks_congr fun key hkey => h key (List.mem_append_right _ hkey), hif]

theorem renderHtml_eq_fill (html : List Char) (year : Nat) (vars : TemplateVars) :
    renderHtml html year vars =
      (pageParts html (merged year vars)).flatMap (Slot.fill (tokenText (merged year vars) true)) :=
  replaceAll_eq_fill _ _

theorem tokenText_no_markup (vars : TemplateVars) (caps : List (List Char)) :
    ∀ c ∈ tokenText vars true caps, isMarkup c = false := by
  intro c hc
  unfold tokenText at hc
  split at hc
  · split at hc
    · cases hc
    · cases hc
    · rw [if_pos rfl] at hc
      exact decide_eq_false (escapeHtml_no_specials _ c hc)
  · cases hc

/-- Two renderings of a file that show the same blocks are read the same by an automaton that no
character without markup moves at the holes: the values neither begin nor end anything. They fill the
holes of one and the same page, each as it is: none is expanded as a template again. -/
theorem page_reads {σ : Type} {δ : σ → Char → σ} {q : σ} (html : List Char) (year : Nat)
    {vars vars' : TemplateVars} (hsame : SameTruth html (merged year vars) (merged year vars'))
    (hinert : Inert δ (fun c => isMarkup c = false) q (pageParts html (merged year vars))) :
    (renderHtml html year vars).foldl δ q = (renderHtml html year vars').foldl δ q ∧
      renderHtml html year vars =
        (pageParts html (merged year vars)).flatMap (Slot.fill (tokenText (merged year vars) true)) ∧
      renderHtml html year vars' =
        (pageParts html (merged year vars)).flatMap
          (Slot.fill (tokenText (merged year vars') true)) := by
  have hfill := renderHtml_eq_fill html year vars
  have hfill' := renderHtml_eq_fill html year vars'
  rw [← pageParts_congr hsame] at hfill'
  refine ⟨?_, hfill, hfill'⟩
  rw [hfill, hfill', hinert.foldl (tokenText_no_markup _), hinert.foldl (tokenText_no_markup _)]

/-! ## Places in a page -/

/-- Where a reader of HTML is. -/
inductive Place where
  | text
  | tag
  /-- In the value of an attribute, up to the quote. -/
  | quoted (quote : Char)
  deriving DecidableEq, Repr

namespace Place

def next (place : Place) (c : Char) : Place :=
  match place with
  | text => if c = '<' then tag else text
  | tag => if c = '>' then text else if c = '"' ∨ c = '\'' then quoted c else tag
  | quoted quote => if c = quote then tag else quoted quote

def holds : Place → Bool
  | text => true
  | tag => false
  | quoted quote => isMarkup quote

/-- Every hole is in a text, or in the value of a quoted attribute. -/
def allHold : Place → List (Slot Char) → Bool
  | _, [] => true
  | place, .kept c :: l => allHold (place.next c) l
  | place, .hole _ :: l => place.holds && allHold place l

theorem next_eq_self {place : Place} (h : place.holds = true) {c : Char} (hc : isMarkup c = false) :
    place.next c = place := by
  rcases place with _ | _ | quote
  · refine if_neg ?_
    rintro rfl
    cases hc
  · cases h
  · refine if_neg ?_
    rintro rfl
    exact Bool.false_ne_true (hc.symm.trans h)

theorem inert_of_allHold {place : Place} {l : List (Slot Char)} (h : place.allHold l = true) :
    Inert next (fun c => isMarkup c = false) place l := by
  induction l generalizing place with
  | nil => trivial
  | cons p l ih =>
    rcases p with c | caps
    · exact ih h
    · obtain ⟨hplace, hrest⟩ := (Bool.and_eq_true _ _).mp h
      exact ⟨fun c hc => next_eq_self hplace hc, ih hrest⟩

end Place

/-- The parts of the page, where all that is evaluated recurses on a list. -/
theorem pageParts_eq (html : List Char) (vars : TemplateVars) :
    pageParts html vars = parts tokenPattern
      ((parts Kind.unlessBlock.pattern ((parts Kind.ifBlock.pattern html).flatMap
        (Slot.fill (blockText .ifBlock vars)))).flatMap (Slot.fill (blockText .unlessBlock vars))) := by
  unfold pageParts renderConditionals renderBlocks
  rw [replaceAll_eq_fill, replaceAll_eq_fill]

/-- Lines of the form for a new password. -/
def resetForm : List Char :=
  "\x7b\x7b#if error\x7d\x7d<div class=\"err\">\x7b\x7berror\x7d\x7d</div>\x7b\x7b/if\x7d\x7d\n".toList ++
  "<input type=\"hidden\" name=\"token\" value=\"\x7b\x7btoken\x7d\x7d\">\n".toList

def formVars (token error : String) : TemplateVars where
  own key :=
    if key = "token".toList then some (.string token.toList)
    else if key = "error".toList then some (.string error.toList)
    else none
  inherited _ := .undefined

set_option maxRecDepth 100000 in
/-- A token and a message that would close the attribute and the block. -/
theorem page_reads_reset_form :
    (renderHtml resetForm 2026 (formVars "\"><script>alert(1)</script>" "</div>'")).foldl Place.next
        .text =
      (renderHtml resetForm 2026 (formVars "token" "message")).foldl Place.next .text := by
  refine (page_reads resetForm 2026 (fun key _ => ?_) (Place.inert_of_allHold ?_)).1
  · unfold TemplateVars.get merged formVars
    by_cases htoken : key = "token".toList
    · subst htoken
      decide
    by_cases herror : key = "error".toList
    · subst herror
      decide
    simp only [if_neg htoken, if_neg herror]
  · rw [pageParts_eq]
    decide +kernel

end LmsBackend.Mail
