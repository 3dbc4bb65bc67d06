import LmsBackend.Catalog.CatalogService

/-!
# `?active=`

The parameter goes through three layers of the global `ValidationPipe`: the
implicit conversion to the type of the property, its `@Transform`, its
validators.
-/

namespace LmsBackend.Catalog

/-- A parameter as it comes, and what the layers make of it. -/
inductive QueryValue where
  | undefined
  | string (s : String)
  | boolean (b : Bool)
  deriving DecidableEq, Repr

namespace QueryValue

/-- `Boolean(value)` -/
def truthy : QueryValue → Bool
  | undefined => false
  | string s => s ≠ ""
  | boolean b => b

end QueryValue

/-! ## The pipe -/

inductive DesignType where
  | string
  | boolean
  deriving DecidableEq, Repr

/-- A property of a DTO: its decorators, and its type as the compiler emits it. -/
structure Property where
  type : DesignType
  transform : QueryValue → QueryValue
  isOptional : Bool
  /-- Each with its message. -/
  validators : List (String × (QueryValue → Bool))

structure TransformOptions where
  enableImplicitConversion : Bool

/-- What `class-transformer` does before any `@Transform`. A value that is missing stays so. -/
def implicitConversion (type : DesignType) : QueryValue → QueryValue
  | .undefined => .undefined
  | .string s =>
    match type with
    | .string => .string s
    | .boolean => .boolean (QueryValue.truthy (.string s))
  | .boolean b =>
    match type with
    | .string => .string (if b then "true" else "false")
    | .boolean => .boolean b

/-- The errors are the messages of a 400. -/
def Property.validate (p : Property) (v : QueryValue) : Except (List String) QueryValue :=
  if p.isOptional ∧ v = .undefined then .ok v
  else
    match (p.validators.filter fun (_, check) => !check v).map (·.1) with
    | [] => .ok v
    | messages => .error messages

def ValidationPipe.transform (options : TransformOptions) (p : Property) (v : QueryValue) :
    Except (List String) QueryValue :=
  let converted := if options.enableImplicitConversion then implicitConversion p.type v else v
  p.validate (p.transform converted)

/-- The options in `AppModule`. -/
def transformOptions : TransformOptions := ⟨true⟩

/-! ## `CatalogQueryDto.active` -/

def isBoolean : QueryValue → Bool
  | .boolean _ => true
  | _ => false

def transformActive (value : QueryValue) : QueryValue :=
  if value = .string "true" ∨ value = .boolean true then .boolean true
  else if value = .string "false" ∨ value = .boolean false then .boolean false
  else value

def CatalogQueryDto.activeProperty : Property where
  type := .boolean
  transform := transformActive
  isOptional := true
  validators := [("active must be a boolean value", isBoolean)]

/-- What the comment at the property says: anything other than `true` and `false` is refused. -/
def strictActive (s : String) : Except (List String) QueryValue :=
  if s = "true" then .ok (.boolean true)
  else if s = "false" then .ok (.boolean false)
  else .error ["active must be a boolean value"]

/-- The transform and the validator alone are strict. -/
theorem active_without_conversion (s : String) :
    ValidationPipe.transform ⟨false⟩ CatalogQueryDto.activeProperty (.string s) = strictActive s := by
  simp only [ValidationPipe.transform, CatalogQueryDto.activeProperty, Property.validate,
    transformActive, strictActive, QueryValue.string.injEq, reduceCtorEq, or_false, Bool.false_eq_true,
    if_false]
  by_cases htrue : s = "true"
  · simp [htrue, isBoolean]
  · by_cases hfalse : s = "false"
    · simp [hfalse, isBoolean]
    · simp [htrue, hfalse, isBoolean]

/-- The conversion comes first, and leaves nothing to be strict about. -/
theorem active_with_conversion (s : String) :
    ValidationPipe.transform transformOptions CatalogQueryDto.activeProperty (.string s) =
      .ok (.boolean (s ≠ "")) := by
  by_cases hempty : s = ""
  · simp [ValidationPipe.transform, transformOptions, CatalogQueryDto.activeProperty,
      implicitConversion, QueryValue.truthy, Property.validate, transformActive, isBoolean, hempty]
  · simp [ValidationPipe.transform, transformOptions, CatalogQueryDto.activeProperty,
      implicitConversion, QueryValue.truthy, Property.validate, transformActive, isBoolean, hempty]

/-- The pipe does with a parameter what the strict parse does, for `true` only. -/
theorem active_strict_iff (s : String) :
    ValidationPipe.transform transformOptions CatalogQueryDto.activeProperty (.string s) =
      strictActive s ↔ s = "true" := by
  rw [active_with_conversion]
  unfold strictActive
  constructor
  · intro h
    by_contra htrue
    rw [if_neg htrue] at h
    by_cases hfalse : s = "false"
    · rw [if_pos hfalse, hfalse] at h
      simp at h
    · rw [if_neg hfalse] at h
      cases h
  · rintro rfl
    simp

/-- `?active=false` asks for the active certificates. -/
theorem active_false_flipped :
    ValidationPipe.transform transformOptions CatalogQueryDto.activeProperty (.string "false") =
        .ok (.boolean true) ∧
      strictActive "false" = .ok (.boolean false) := by
  decide

end LmsBackend.Catalog
