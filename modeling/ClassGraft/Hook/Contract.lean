/-
# Hook.Contract — what a declaration promises

A declaration is checked twice before anything is spliced: on its own against the hook method
(`check`), and against the method that it goes into (`checkTarget`).  Each check stops at the first
part that is not as it has to be.
-/
import ClassGraft.Hook.Declaration

namespace ClassGraft

set_option autoImplicit false

namespace Declaration

/-- Whether a parameter of a hook of that form can carry a marker. -/
def markerFits (form : SpliceForm) : Marker → Bool
  | .receiverOfTarget | .argument _ => true
  | .localNamed name => !name.isEmpty
  | .result => form = .callback
  | .receiver | .callArgument _ => form = .redirect

/-- Whether the hook acts on the matched instruction itself and not on its line. -/
def actsOnInstruction (d : Declaration) : Bool := d.form = .callback || d.form = .redirect

/-- Whether the query leads away from the line of its match. -/
def movesLine (d : Declaration) : Bool := d.query.offset ≠ 0 || d.query.side = .after

def checkMethod (d : Declaration) (hook : Method) : Except SpliceFault Unit := do
  if !hook.has .everywhere (.of [.static]) then
    d.refuse "public static hook" (hook.access.label ++ " with " ++ hook.modifiers.render)
  if !hook.exceptions.isEmpty then
    d.refuse "no declared exceptions"
      ("throws " ++ ", ".intercalate (hook.exceptions.map BinaryName.text))

def checkForm (d : Declaration) : Except SpliceFault Unit := do
  let returns := d.hookDescriptor.returns
  if d.form = .callback then
    match returns with
    | some (.ref _) => pure ()
    | _ => d.refuse "callback returning a boxed or reference value" (describeResult returns)
    if d.query.kind = .head then
      d.refuse "callback on an instruction producing or consuming a value" "HEAD"
  if d.form = .redirect ∧ d.query.kind ≠ .invoke ∧ d.query.kind ≠ .new then
    d.refuse "redirect of an INVOKE or NEW" d.query.kind.keyword

def checkQuery (d : Declaration) : Except SpliceFault Unit := do
  if d.actsOnInstruction && d.movesLine then
    d.refuse (d.form.label ++ " on the matched instruction")
      ("offset=" ++ toString d.query.offset.toInt ++ " mode=" ++ d.query.side.label)
  match d.query.pattern with
  | .ok _ => pure ()
  | .error fault => d.refuse "well-formed @At value" fault.message

def checkParameter (d : Declaration) (p : HookParameter) : Except SpliceFault Unit := do
  match p.marker? with
  | none =>
      d.refuse ("exactly one marker on parameter " ++ toString p.index)
        (Text.bracketed (p.markers.map Marker.render))
  | some marker =>
      if !markerFits d.form marker then
        d.refuse ("marker usable in a " ++ d.form.label)
          (marker.render ++ " on parameter " ++ toString p.index)

/-- Checks a declaration against the hook method it is made on. -/
def check (d : Declaration) (hook : Method) : Except SpliceFault Unit := do
  d.checkMethod hook
  d.checkForm
  d.checkQuery
  d.parameters.forM d.checkParameter

/-- Checks that a parameter of the hook can receive what it asks for of the target method. -/
def checkArgument (d : Declaration) (target : Method) (p : HookParameter) :
    Except SpliceFault Unit := do
  match p.marker? with
  | some .receiverOfTarget =>
      if target.isStatic then
        d.refuse "@This in an instance method" (target.key.text ++ " is static")
  | some (.argument index) =>
      match target.parameters.get? index with
      | none =>
          d.refuse ("@Arg index below " ++ toString target.parameters.entries.length)
            (toString index)
      | some argument =>
          if !argument.type.assignableTo p.type then
            d.refuse ((Marker.argument index).render ++ " of type " ++ argument.type.render)
              p.type.render
  | _ => pure ()

/-- Checks a declaration against the method it goes into. -/
def checkTarget (d : Declaration) (target : Method) : Except SpliceFault Unit := do
  if !target.hasCode then
    d.refuse "target method with a body" (target.key.identity target.owner ++ " has no code")
  if d.form = .cancellation && target.descriptor.returns.isSome then
    d.refuse "cancellation of a void method"
      (target.key.text ++ " returns " ++ describeResult target.descriptor.returns)
  d.parameters.forM (d.checkArgument target)

end Declaration

end ClassGraft
