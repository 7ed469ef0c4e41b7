import ManagedModel.Address
import ManagedModel.Value.Text

/-! # Operations

    A request against one resource: the name of what is to be done, the
    address it is done at, and named parameters. A parameter that is present
    and undefined differs from one that is absent, but neither is supplied. -/

namespace ManagedModel

/-- A request against the resource at an address. -/
structure Operation where
  name : String
  address : Address
  params : Attributes := ∅
deriving DecidableEq

namespace Operation

/-- The value given for a parameter. -/
def param? (op : Operation) (name : String) : Option Value := op.params.get? name

/-- Whether a parameter is given a defined value. -/
def supplies (op : Operation) (name : String) : Bool :=
  (op.param? name).any Value.isDefined

/-- The request with one more parameter. -/
def withParam (op : Operation) (name : String) (value : Value) : Operation :=
  { op with params := op.params.insert name value }

/-- A parameter as it is written in the display of an operation. -/
def paramText (p : String × Value) : String := p.1 ++ "=" ++ p.2.text

/-- The operation as it is written: the address, the name and the parameters if there are any. -/
def text (op : Operation) : String :=
  op.address.text ++ ":" ++ op.name ++
    (if op.params.isEmpty then ""
     else "(" ++ ",".intercalate (op.params.entries.map paramText) ++ ")")

end Operation

end ManagedModel
