/-!
# Data tables

A server keeps its data in four tables: two of single bits and two of 16-bit registers.
-/

namespace Modbus

/-- The table that a range of data belongs to; `invalid` stands for no table at all. -/
inductive Table
  | invalid
  | discreteInput
  | coils
  | inputRegisters
  | holdingRegisters
  deriving DecidableEq, Repr, Inhabited

namespace Table

/-- Every table, `invalid` included. -/
def all : List Table := [invalid, discreteInput, coils, inputRegisters, holdingRegisters]

/-- The name of a table. -/
def name : Table → String
  | invalid => "Invalid"
  | discreteInput => "DiscreteInput"
  | coils => "Coils"
  | inputRegisters => "InputRegisters"
  | holdingRegisters => "HoldingRegisters"

/-- The table of a given name. -/
def ofName? (s : String) : Option Table :=
  all.find? fun t => t.name = s

/-- Whether the elements of a table are single bits. -/
def isBit : Table → Bool
  | coils | discreteInput => true
  | _ => false

end Table

end Modbus
