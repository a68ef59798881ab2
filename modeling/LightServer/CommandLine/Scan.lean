import LightServer.CommandLine.Parameter

/-!
# Reading a command line

The arguments are read one after the other. A parameter whose value is the next argument
is looked at only when the argument after that value begins with a known name, or when
there are no more arguments. So an argument that nothing is known about is reported
before a wrong value that precedes it. Variables are looked at last, for parameters that
were not given, in the order in which the parameters are declared.
-/

namespace LightServer.CommandLine

/-- How far the reading has come: the parameters that are done, the one that has been
named and perhaps has got its value, and whether only plain arguments may follow. -/
structure Scan where
  done : Values
  pending : Option (Parameter × Option String)
  plainOnly : Bool

namespace Scan

def start : Scan := ⟨[], none, false⟩

def has (name : String) (s : Scan) : Bool := s.done.any (·.1 == name)

/-- Takes a value for a parameter, which may be given once. -/
def accept (p : Parameter) (value : String) (s : Scan) : Except Fault Scan :=
  if s.has p.name then .error .conflict
  else
    match p.fault? value with
    | some e => .error e
    | none => .ok { s with done := s.done ++ [(p.name, value)] }

def resolve (s : Scan) : Except Fault Scan :=
  match s.pending with
  | none => .ok s
  | some (_, none) => .error .invalidValue
  | some (p, some value) => accept p value { s with pending := none }

inductive Name where
  | help
  | version
  | parameter (p : Parameter)

def splitValue : List Char → List Char × Option (List Char)
  | [] => ([], none)
  | c :: s => if c = '=' then ([], some s) else ((c :: (splitValue s).1), (splitValue s).2)

def longName? (ps : List Parameter) (name : String) : Option Name :=
  if name = "help" then some .help
  else if name = "version" then some .version
  else (ps.find? fun p => p.name == name).map .parameter

def shortName? (c : Char) : Option Name :=
  if c = 'h' then some .help else if c = 'V' then some .version else none

def readName (n : Name) (value : Option String) (s : Scan) : Except Fault Scan :=
  match n, value with
  | .help, none => (resolve s).bind fun _ => .error .help
  | .version, none => (resolve s).bind fun _ => .error .version
  | .help, some _ | .version, some _ => .error .tooManyValues
  | .parameter p, some value =>
      if p.takesValue then (resolve s).bind (accept p value) else .error .tooManyValues
  | .parameter p, none =>
      if p.takesValue then (resolve s).map fun s => { s with pending := some (p, none) }
      else (resolve s).bind (accept p Parameter.switchedOn)

def readPlain (arg : List Char) (s : Scan) : Except Fault Scan :=
  match s.pending with
  | some (p, none) => .ok { s with pending := some (p, some (String.ofList arg)) }
  | _ => .error .unknownArgument

def step (ps : List Parameter) (s : Scan) (arg : String) : Except Fault Scan :=
  if s.plainOnly then .error .unknownArgument
  else
    match arg.toList with
    | ['-', '-'] => .ok { s with plainOnly := true }
    | '-' :: '-' :: text =>
        let (name, value) := splitValue text
        match longName? ps (String.ofList name) with
        | none => .error .unknownArgument
        | some n => readName n (value.map String.ofList) s
    | '-' :: c :: _ =>
        match shortName? c with
        | none => .error .unknownArgument
        | some n => readName n none s
    | text => readPlain text s

def readVariable (environment : String → Option String) (s : Scan) (p : Parameter) :
    Except Fault Scan :=
  if s.has p.name then .ok s
  else
    match environment p.environmentName with
    | none => .ok s
    | some value => accept p value s

end Scan

def readValues (ps : List Parameter) (environment : String → Option String)
    (args : List String) : Except Fault Values := do
  let s ← args.foldlM (Scan.step ps) .start
  let s ← s.resolve
  let s ← ps.foldlM (Scan.readVariable environment) s
  return s.done

def Values.get? (name : String) (vs : Values) : Option String := vs.lookup name

end LightServer.CommandLine
