/-
# Splice.Basic — one hook into one body

A hook goes in where its anchor is: in front of the anchor when it belongs to a line, and at the
first instruction behind the anchor when it acts on an instruction.
-/
import ClassGraft.Splice.Line
import ClassGraft.Splice.Redirect

namespace ClassGraft

set_option autoImplicit false

/-- Splices a hook into a body that has its anchor; gives the body and the constants. -/
def Declaration.splice (d : Declaration) (thisClass : BinaryName) (m : Method) (isStatic : Bool)
    (body : MethodBody) (pool : ConstantPool) (anchor : Label) :
    Except SpliceFault (MethodBody × ConstantPool) :=
  let s : SpliceSite := { thisClass, method := m, isStatic, body, index := 0 }
  match body.labelIndex? anchor with
  | none => s.inconsistent ("splice point " ++ anchor.render ++ " is gone")
  | some place =>
      match d.form with
      | .listener | .cancellation => { s with index := place }.spliceLine d pool
      | .callback | .redirect =>
          match body.nextInstruction? place with
          | none => s.inconsistent "no instruction at the splice point"
          | some (index, i) =>
              if d.form = .callback then { s with index }.spliceCallback d pool i
              else { s with index }.spliceRedirect d pool i

end ClassGraft
