import LmsBackend.Requests.Statements

/-!
# When the database takes what the pipe has let through

The DTOs let `null` through where a column is NOT NULL, a locale of `auth/register` that the CHECK
refuses, and numbers that are too large.
-/

open Store Numeric

namespace LmsBackend.Requests

open Content
open Content.CatalogService (certificateOf)
open Content.LearningService (moduleOf lessonOf)
open Profile (requiredColumn optionalColumn)

/-! ## Columns -/

section

variable {α : Type} {c : Column α} {P : α → Prop} {f : Content.Field α}

end

/-! ## Texts without NUL -/

section

variable [JsNumbers] {v : Auth.JsValue}

end

/-! ## Documents -/

section

variable [Jsonb]

end

/-! ## Certificates -/

section

variable [Jsonb]

variable [JsNumbers]

end

end LmsBackend.Requests
