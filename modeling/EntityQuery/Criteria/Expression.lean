import EntityQuery.Criteria.ValueType
/-! Operands of conditions: paths, literals and parameters. -/
namespace EntityQuery.Criteria

/-- The row of a source, or an attribute of it; dots in the attribute lead into nested objects. -/
structure Path where
  aliasName : String
  attr : Option String := none
deriving DecidableEq

def Path.get (p : Path) (attr : String) : Path :=
  match p.attr with
  | some parent => ⟨p.aliasName, some (parent ++ "." ++ attr)⟩
  | none => ⟨p.aliasName, some attr⟩

inductive ParameterId where
  /-- Declared by a caller, who tells its parameters apart by a label. -/
  | declared (label : String)
  /-- Read from query text, where the name decides. -/
  | named (name : String)
  /-- The identifier that a look-up by id compares with. -/
  | identifier
deriving DecidableEq

def ParameterId.text : ParameterId → String
  | .declared label => "<" ++ label ++ ">"
  | .named name => "<:" ++ name ++ ">"
  | .identifier => "<id>"

structure Parameter where
  id : ParameterId
  type : ValueType
  name : Option String := none
deriving DecidableEq

def Parameter.label (p : Parameter) : String := p.name.getD p.id.text

inductive Expression where
  | path (path : Path)
  | literal (value : Value)
  | parameter (parameter : Parameter)

namespace Expression

def path? : Expression → Option Path
  | .path p => some p
  | _ => none

def parameter? : Expression → Option Parameter
  | .parameter p => some p
  | _ => none

end Expression

end EntityQuery.Criteria
