/-
# Main — the command line

`classgraft --classpath DIR --hook CLASS ... --output DIR TARGET ...` registers the hook classes,
splices their hooks into the targets and writes every target below the output directory.  A target
that no hook goes into is written as it was.

Of the class path only those classes are read that can matter: the hooks, the targets, and the
classes whose descriptors stand in a hook's constant pool.
-/
import ClassGraft.Splice.Session

namespace ClassGraft

set_option autoImplicit false

/-! ## Options -/

structure Options where
  classpath : String
  output : String
  hooks : List String
  targets : List String
  settings : Settings

namespace Options

/-- What was given so far. -/
structure Draft where
  classpath : Option String := none
  output : Option String := none
  hooks : List String := []
  targets : List String := []
  settings : Settings := {}

def Draft.finish (d : Draft) : Except String Options := do
  let some classpath := d.classpath | throw "--classpath is required"
  let some output := d.output | throw "--output is required"
  if d.hooks.isEmpty then throw "--hook is required"
  if d.targets.isEmpty then throw "TARGET is required"
  return { classpath, output, hooks := d.hooks, targets := d.targets, settings := d.settings }

/-- Takes in an option that has a value. -/
def Draft.set (d : Draft) (option value : String) : Except String Draft :=
  match option with
  | "--classpath" => .ok { d with classpath := some value }
  | "--output" => .ok { d with output := some value }
  | "--hook" => .ok { d with hooks := d.hooks ++ [value] }
  | "--api-package" => .ok { d with settings := { d.settings with apiPackage := value } }
  | "--max-closure-depth" =>
      match value.toNat? with
      | some depth => .ok { d with settings := { d.settings with maxClosureDepth := depth } }
      | none => .error ("not a depth: " ++ value)
  | _ => .error ("unknown option " ++ option)

/-- An argument `--option=value` as its two parts. -/
def split? (argument : String) : Option (String × String) :=
  match argument.splitOn "=" with
  | option :: first :: rest => some (option, "=".intercalate (first :: rest))
  | _ => none

def parseFrom (d : Draft) : List String → Except String Options
  | [] => d.finish
  | argument :: rest =>
      if argument == "--strict-offsets" then
        parseFrom { d with settings := { d.settings with strictOffsets := true } } rest
      else if !argument.startsWith "--" then
        parseFrom { d with targets := d.targets ++ [argument] } rest
      else match split? argument with
        | some (option, value) => do parseFrom (← d.set option value) rest
        | none =>
            match rest with
            | [] => .error (argument ++ " needs a value")
            | value :: rest => do parseFrom (← d.set argument value) rest

def parse (arguments : List String) : Except String Options := parseFrom {} arguments

end Options

/-- The classes whose descriptors are texts of a constant pool. -/
def ConstantPool.describedClasses (pool : ConstantPool) : List BinaryName :=
  pool.toList.filterMap fun
    | (_, .utf8 text) => (BinaryName.parse text).toOption
    | _ => none

/-- A class name as written in source text. -/
def sourceName (text : String) : Except SpliceFault BinaryName :=
  (BinaryName.ofSource text).mapError fun fault => .classFault (.malformed (.illegalName fault))

/-! ## Files -/

namespace CommandLine

def pathOf (root : String) (name : BinaryName) : String := root ++ "/" ++ name.text ++ ".class"

/-- The class files of these classes, of those that can be read. -/
def readClasses (root : String) (names : List BinaryName) : IO (List (BinaryName × List UInt8)) :=
  names.filterMapM fun name => do
    try
      let bytes ← IO.FS.readBinFile (pathOf root name)
      return some (name, bytes.toList)
    catch _ => return none

def writeClass (root : String) (name : BinaryName) (bytes : List UInt8) : IO Unit := do
  let path := pathOf root name
  IO.FS.createDirAll ("/".intercalate (path.splitOn "/").dropLast)
  IO.FS.writeBinFile path ⟨bytes.toArray⟩

def orThrow {α : Type} : Except SpliceFault α → IO α
  | .ok value => return value
  | .error fault => throw (IO.userError fault.message)

/-- Performs a step of a session. -/
def perform {α : Type} (step : SessionStep α) (s : Session) : IO (α × Session) :=
  match step s with
  | .ok value s => return (value, s)
  | .error fault _ => throw (IO.userError fault.message)

def run (o : Options) : IO Unit := do
  let hooks ← orThrow (o.hooks.mapM sourceName)
  let targets ← orThrow (o.targets.mapM sourceName)
  let given ← readClasses o.classpath (hooks ++ targets)
  let mentioned := given.flatMap fun (name, bytes) =>
    match ClassFile.parse bytes with
    | .ok c => if hooks.contains name then c.pool.describedClasses else []
    | .error _ => []
  let source := SortedMap.ofList (given ++ (← readClasses o.classpath mentioned))
  let mut session := Session.start source o.settings
  for hook in hooks do
    let (count, next) ← perform (Session.register hook) session
    session := next
    if count = 0 then IO.eprintln ("Hook class " ++ hook.text ++ " has no declarations")
  for target in targets do
    let some bytes := source.get? target
      | orThrow (.error (.classFault (.missingClass target.text)))
    let (edited, next) ← perform (Session.transform target bytes) session
    session := next
    if edited.isNone then
      IO.eprintln ("No hook targets " ++ target.text ++ ", copying it unchanged")
    writeClass o.output target (edited.getD bytes)

end CommandLine

end ClassGraft

def main (arguments : List String) : IO UInt32 := do
  match ClassGraft.Options.parse arguments with
  | .error problem =>
      IO.eprintln ("error: " ++ problem)
      return 2
  | .ok options =>
      try
        ClassGraft.CommandLine.run options
        return 0
      catch fault =>
        IO.eprintln ("Error: " ++ toString fault)
        return 1
