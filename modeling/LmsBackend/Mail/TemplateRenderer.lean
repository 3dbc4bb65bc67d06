import LmsBackend.Text.Patterns

/-!
# The renderer of the email templates

`template.renderer.ts`. A text is the list of its characters.
-/

open Text

namespace LmsBackend.Mail

/-! ## Variables -/

inductive Value where
  | undefined
  | null
  | bool (b : Bool)
  /-- A number, as `String` writes it. Both zeros are "0". -/
  | number (text : List Char)
  /-- A string, or what `String` makes of any other value. -/
  | string (s : List Char)
  deriving DecidableEq, Repr

/-- `String(v)` -/
def Value.text : Value → List Char
  | .undefined => "undefined".toList
  | .null => "null".toList
  | .bool b => if b then "true".toList else "false".toList
  | .number text => text
  | .string s => s

structure TemplateVars where
  own : List Char → Option Value
  /-- What an object has from its prototype. -/
  inherited : List Char → Value

/-- `vars[key]` -/
def TemplateVars.get (vars : TemplateVars) (key : List Char) : Value :=
  (vars.own key).getD (vars.inherited key)

def isTruthy : Value → Bool
  | .undefined | .null => false
  | .bool b => b
  | .number text => text ≠ "0".toList
  | .string s => 0 < s.length && s ≠ "false".toList

/-! ## The passes -/

/-- `\w` -/
def isWord (c : Char) : Bool := c.isAlphanum || c = '_'

/-- `\s` -/
def isSpace (c : Char) : Bool :=
  c ∈ ['\t', '\n', '\x0b', '\x0c', '\r', ' ', '\u00a0', '\u1680', '\u2000', '\u2001', '\u2002',
    '\u2003', '\u2004', '\u2005', '\u2006', '\u2007', '\u2008', '\u2009', '\u200a', '\u2028',
    '\u2029', '\u202f', '\u205f', '\u3000', '\ufeff']

inductive Kind where
  | ifBlock
  | unlessBlock
  deriving DecidableEq, Repr

/-- What a block starts with, up to its key: `{{#if` or `{{#unless`. -/
def Kind.opening : Kind → List Char
  | .ifBlock => "\x7b\x7b#if".toList
  | .unlessBlock => "\x7b\x7b#unless".toList

def Kind.closing : Kind → List Char
  | .ifBlock => "\x7b\x7b/if\x7d\x7d".toList
  | .unlessBlock => "\x7b\x7b/unless\x7d\x7d".toList

/-- `{{#if\s+(\w+)}}([\s\S]*?){{/if}}`, and the one for `unless`. -/
def Kind.pattern (kind : Kind) : List (Piece Char) :=
  [.lit kind.opening, .plus false isSpace, .plus true isWord, .lit "\x7d\x7d".toList, .short,
    .lit kind.closing]

/-- Whether a block of this kind shows its body. -/
def Kind.shows : Kind → Value → Bool
  | .ifBlock, v => isTruthy v
  | .unlessBlock, v => !isTruthy v

/-- What a block becomes, by what its pattern captures. -/
def blockText (kind : Kind) (vars : TemplateVars) : List (List Char) → List Char
  | [key, body] => if kind.shows (vars.get key) then body else []
  | _ => []

/-- One of the two replacements of `renderConditionals`. -/
def renderBlocks (kind : Kind) (vars : TemplateVars) (template : List Char) : List Char :=
  replaceAll kind.pattern (blockText kind vars) template

def renderConditionals (template : List Char) (vars : TemplateVars) : List Char :=
  renderBlocks .unlessBlock vars (renderBlocks .ifBlock vars template)

/-- `s.replace(/c/g, replacement)` -/
def replaceChar (c : Char) (replacement : String) (s : List Char) : List Char :=
  replaceAll [.lit [c]] (fun _ => replacement.toList) s

def escapeHtml (s : List Char) : List Char :=
  replaceChar '\'' "&#039;" (replaceChar '"' "&quot;" (replaceChar '>' "&gt;"
    (replaceChar '<' "&lt;" (replaceChar '&' "&amp;" s))))

/-- `{{(\w+)}}` -/
def tokenPattern : List (Piece Char) :=
  [.lit "\x7b\x7b".toList, .plus true isWord, .lit "\x7d\x7d".toList]

/-- What a token becomes. -/
def tokenText (vars : TemplateVars) (escape : Bool) : List (List Char) → List Char
  | [key] =>
    match vars.get key with
    | .undefined | .null => []
    | v => if escape then escapeHtml v.text else v.text
  | _ => []

def renderTokens (template : List Char) (vars : TemplateVars) (escape : Bool) : List Char :=
  replaceAll tokenPattern (tokenText vars escape) template

/-! ## The files -/

/-- `{ currentYear: new Date().getFullYear(), ...vars }` -/
def merged (year : Nat) (vars : TemplateVars) : TemplateVars :=
  let currentYear := fun key =>
    if key = "currentYear".toList then some (Value.number (Nat.toDigits 10 year)) else none
  { vars with own := fun key => (vars.own key).or (currentYear key) }

/-- The file of a page, or the HTML file of a pair. -/
def renderHtml (html : List Char) (year : Nat) (vars : TemplateVars) : List Char :=
  renderTokens (renderConditionals html (merged year vars)) (merged year vars) true

structure Rendered where
  html : List Char
  text : List Char

def renderTemplate (html text : List Char) (year : Nat) (vars : TemplateVars) : Rendered where
  html := renderTokens (renderConditionals html (merged year vars)) (merged year vars) true
  text := renderTokens (renderConditionals text (merged year vars)) (merged year vars) false

end LmsBackend.Mail
