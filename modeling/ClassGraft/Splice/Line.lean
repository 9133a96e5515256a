/-
# Splice.Line — hooks at the start of a line

A listener is called and that is all.  A cancellation is called and decides: when it gives false,
the method returns at once, and otherwise it goes on behind the block.
-/
import ClassGraft.Splice.Arguments

namespace ClassGraft

set_option autoImplicit false

namespace SpliceSite

/-- Returns from the method unless the value on top of the stack holds; `proceed` stands behind. -/
def returnUnless (s : SpliceSite) (proceed : Label) : Emitting Unit := do
  let decision ← s.alloc (.base .boolean)
  s.store (.base .boolean) decision
  s.load (.base .boolean) decision
  s.emit (.branch (.zero .ne) proceed)
  let f ← currentFrame
  s.emit (.simple .giveNothing)
  place proceed f

def emitLine (s : SpliceSite) (d : Declaration) (proceed : Label) : Emitting Unit := do
  if d.form = .cancellation && beforeSuper (← currentFrame) then
    s.inconsistent "cannot return before the super constructor call"
  s.callHook d {}
  if d.form = .cancellation then s.returnUnless proceed

/-- Puts a listener or cancellation in front of the site's node. -/
def spliceLine (s : SpliceSite) (d : Declaration) (pool : ConstantPool) :
    Except SpliceFault (MethodBody × ConstantPool) :=
  let (proceed, body) := s.body.freshLabel
  { s with body }.build pool 0 (s.emitLine d proceed)

end SpliceSite

end ClassGraft
