/-
# Hook.Settings — how hooks are read and located

The settings of a pass, and the names of the annotation types that they imply.
-/
import ClassGraft.Hook.Fault

namespace ClassGraft

set_option autoImplicit false

structure Settings where
  /-- How many closures deep a method is searched. -/
  maxClosureDepth : Nat := 8
  /-- Refuse a line outside the method instead of taking the nearest one inside. -/
  strictOffsets : Bool := false
  /-- The package of the annotation types, with slashes between its parts. -/
  apiPackage : String := "bytesplice/api"

/-- The full name of an annotation type. -/
def Settings.apiName (s : Settings) (simpleName : String) : Except SpliceFault BinaryName :=
  let package := (s.apiPackage.toList.reverse.dropWhile (· = '/')).reverse
  match BinaryName.ofString (String.ofList (package ++ '/' :: simpleName.toList)) with
  | .ok name => .ok name
  | .error _ => .error (.badApiPackage s.apiPackage)

end ClassGraft
