import LmsBackend.Async.Interpret
import LmsBackend.Exams.Executions
import Mathlib.Data.List.Dedup

/-!
# The next exam of a student

`assignNextExam` by itself, while the database works. Other transactions may be
open, with any user set. The policy compares the text of the user id, so it hides
the attempts of a student whose id is not spelled as the database spells it.
-/

open Async Store

namespace LmsBackend.Exams

open ExamService

/-! ## What the next exam is -/

section

variable {w : World} {certId : Id}

end

/-! ## The call -/

section

variable [Bcrypt] {w v : World} {i : Nat} {userId certId : String} {f : Option (Fault World Call)}

section

variable {w w' : World} {userId certId : Id} {row : Exam}

end

end

end LmsBackend.Exams
