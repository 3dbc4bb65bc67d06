import LmsBackend.Store.Table
import LmsBackend.Text.JsText

/-!
# Translations

The `translations` document of a row: a block of texts for each locale. The DTOs
check only that the document is an object, so a block can be any JSON value and
a key any string.
-/

open Store

namespace LmsBackend.Content

/-! ## Locales -/

inductive Locale where
  | en
  | tr
  | fr
  | es
  | ar
  | de
  deriving DecidableEq, Repr

def Locale.code : Locale → String
  | en => "en"
  | tr => "tr"
  | fr => "fr"
  | es => "es"
  | ar => "ar"
  | de => "de"

def supportedLocales : List Locale := [.en, .tr, .fr, .es, .ar, .de]

def defaultLocale : Locale := .en

def isLocale (value : String) : Bool := (supportedLocales.map Locale.code).contains value

/-! ## Documents -/

/-- A JSON value. What is inside an array or an object is never looked at: there are its text, and
what the driver sends of it for a column of text. -/
inductive Json where
  | null
  | bool (b : Bool)
  | num (n : Text.JsNumber)
  | str (s : String)
  | nested (text sent : String)
  deriving DecidableEq, Repr

def Json.truthy : Json → Bool
  | .null => false
  | .bool b => b
  | .num n => n.text ≠ "0"
  | .str s => s ≠ ""
  | .nested _ _ => true

/-- As the driver sends it for a column of text. -/
def Json.text : Json → String
  | .null => "null"
  | .bool b => if b then "true" else "false"
  | .num n => n.text
  | .str s => s
  | .nested _ sent => sent

/-- The value of a locale: an object with its fields, or something else, which has no fields. -/
inductive Block where
  | fields (fs : List (String × Json))
  | value (j : Json)
  deriving DecidableEq, Repr

/-- `block?.[field]`. `none` is `undefined`. -/
def Block.field? : Block → String → Option Json
  | .fields fs, name => fs.lookup name
  | .value _, _ => none

structure LocaleBlock where
  locale : String
  block : Block
  deriving DecidableEq, Repr

instance : Keyed LocaleBlock String := ⟨LocaleBlock.locale⟩

@[simp] theorem LocaleBlock.keyed (b : LocaleBlock) : Keyed.key b = b.locale := rfl

abbrev Translations := Table LocaleBlock

namespace Translations

def block? (t : Translations) (locale : String) : Option Block := (t.get locale).map (·.block)

/-- `translations[locale]?.[field]` -/
def field? (t : Translations) (locale field : String) : Option Json :=
  (t.block? locale).bind (·.field? field)

/-- `{ ...t, ...incoming }` -/
def spread (t incoming : Translations) : Translations := incoming.rows.foldl Table.put t

/-- The keys are supported locales. -/
def Supported (t : Translations) : Prop := ∀ b ∈ t.rows, isLocale b.locale = true

instance (t : Translations) : Decidable t.Supported := inferInstanceAs (Decidable (∀ _ ∈ _, _))

end Translations

/-! ## Reading a field -/

structure Resolved where
  value : Option Json
  localeUsed : Option Locale
  fallbackUsed : Bool
  deriving DecidableEq, Repr

/-- `!= null && !== ''` -/
def present (j : Option Json) : Option Json := j.filter fun j => j ≠ .null ∧ j ≠ .str ""

def resolveTranslation (translations : Translations) (field : String) (locale : Locale) : Resolved :=
  match present (translations.field? locale.code field) with
  | some direct => ⟨some direct, some locale, false⟩
  | none =>
    match present (translations.field? defaultLocale.code field) with
    | some fallback => ⟨some fallback, some defaultLocale, true⟩
    | none => ⟨none, none, false⟩

/-! ## Lemmas -/

namespace Translations

variable {t incoming : Translations} {locale field : String}

theorem get_foldl_put (bs : List LocaleBlock) (hbs : (bs.map Keyed.key).Nodup) (t : Translations) :
    (bs.foldl Table.put t).get locale =
      (bs.find? fun b => b.locale = locale).or (t.get locale) := by
  induction bs generalizing t with
  | nil => rfl
  | cons b bs ih =>
    rw [List.map_cons, List.nodup_cons] at hbs
    rw [List.foldl_cons, ih hbs.2, Table.get_put, List.find?_cons, LocaleBlock.keyed]
    by_cases hb : b.locale = locale
    · have hnone : (bs.find? fun b => b.locale = locale) = none := by
        rw [List.find?_eq_none]
        intro b' hb' hlocale
        refine hbs.1 (List.mem_map.mpr ⟨b', hb', ?_⟩)
        exact (of_decide_eq_true hlocale).trans hb.symm
      simp [hnone, hb]
    · simp [hb]

/-- A block of the second document replaces that of the first. -/
theorem get_spread : (t.spread incoming).get locale = (incoming.get locale).or (t.get locale) :=
  get_foldl_put incoming.rows incoming.nodup t

theorem block?_spread :
    (t.spread incoming).block? locale = (incoming.block? locale).or (t.block? locale) := by
  unfold block?
  rw [get_spread]
  cases incoming.get locale <;> rfl

theorem block?_put (b : LocaleBlock) :
    Translations.block? (t.put b) locale = if b.locale = locale then some b.block else t.block? locale := by
  unfold block?
  rw [Table.get_put, LocaleBlock.keyed]
  split <;> rfl

theorem supported_iff : t.Supported ↔ ∀ locale, (t.block? locale).isSome → isLocale locale = true := by
  constructor
  · intro h locale hsome
    obtain ⟨b, hb⟩ := Option.isSome_iff_exists.mp (Option.isSome_map.symm.trans hsome)
    obtain ⟨hmem, rfl⟩ := Table.get_some_iff.mp hb
    exact h b hmem
  · intro h b hb
    refine h b.locale ?_
    rw [block?, show t.get b.locale = some b from Table.mem_rows_iff.mp hb]
    rfl

/-- A document keeps its keys, and gets those of the other. -/
theorem supported_spread_iff :
    (t.spread incoming).Supported ↔ t.Supported ∧ incoming.Supported := by
  simp only [supported_iff, block?_spread, Option.isSome_or, Bool.or_eq_true]
  constructor
  · intro h
    exact ⟨fun locale hsome => h locale (.inr hsome), fun locale hsome => h locale (.inl hsome)⟩
  · rintro ⟨ht, hincoming⟩ locale (hsome | hsome)
    · exact hincoming locale hsome
    · exact ht locale hsome

theorem supported_put_iff {b : LocaleBlock} (hb : isLocale b.locale = true) :
    Translations.Supported (t.put b) ↔ t.Supported := by
  simp only [supported_iff, block?_put]
  constructor
  · intro h locale hsome
    refine h locale ?_
    split
    · rfl
    · exact hsome
  · intro h locale hsome
    split at hsome
    · rename_i heq
      rw [← heq]
      exact hb
    · exact h locale hsome

end Translations

end LmsBackend.Content
