import LmsBackend.Text.Unicode

/-!
# Texts and numbers of JavaScript

A text that is not well formed has the replacement character for each lone
surrogate once it is written in UTF-8. Of a number there is what `String` makes
of it.
-/

namespace Text

/-- A number, as `String` writes it: with 17 digits at most. -/
structure JsNumber where
  text : String
  digits : text = "Infinity" ∨ text = "-Infinity" ∨ ∀ ch ∈ text.toList, ch ∈ "0123456789+-.e".toList
  short : text.length ≤ 25
  deriving DecidableEq, Repr

/-- A text with a surrogate that has no other half. -/
structure LoneText where
  units : List UInt16
  lone : encodeUtf16 (decodeUtf16 units) ≠ units

/-- What UTF-8 keeps of it. -/
def LoneText.text (t : LoneText) : String := String.ofList (decodeUtf16 t.units)

end Text
