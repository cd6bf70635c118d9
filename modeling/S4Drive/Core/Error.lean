/-
  The errors of the core, as far as the modelled code can
  meet them, with the texts that they carry.

  Main declarations:
    * `CoreError`
    * `CoreResult`
-/

------------------------------------------------------------
-- Errors
------------------------------------------------------------

namespace S4Drive

inductive CoreError where
  | s3 (message : String)
  | database (message : String)
  | network (message : String)
  | fileSystem (message : String)
  | conflict (message : String)
  | notFound (message : String)
  | auth (message : String)
  | protocol (message : String)
  | internal (message : String)
  | workspaceChanged
deriving DecidableEq

abbrev CoreResult := Except CoreError

namespace CoreError

/- Whether the error says that an object is missing. -/
def isNotFound : CoreError → Bool
  | notFound _ => true
  | _ => false

end CoreError

end S4Drive
