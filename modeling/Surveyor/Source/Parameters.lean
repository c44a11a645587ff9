import Surveyor.Text.Basic

/-! # Parameter lists -/

namespace Surveyor

/-- The characters before a default value: up to the first equals sign that does not start an
arrow. Read from the right, such a sign drops all that was kept after it. -/
def beforeDefault (chars : List Char) : List Char :=
  (chars.foldr
    (fun c (kept, following) =>
      if c == '=' && following != some '>' then ([], some c) else (c :: kept, some c))
    (([], none) : List Char × Option Char)).1

/-- A parameter without its default value and spread marker. -/
def parameterDeclaration (part : List Char) : List Char :=
  match Text.stripChars isBlank (beforeDefault part) with
  | '.' :: '.' :: '.' :: rest => rest
  | declaration => declaration

/-- The declarations of a parameter list, which is cut at every comma. -/
def parameterNames (params : String) : List String :=
  if Text.isBlankString params then []
  else
    (((Text.splitChars ',' params.toList).map parameterDeclaration).filter (!·.isEmpty)).map
      String.ofList

end Surveyor
