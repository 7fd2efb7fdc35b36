import WordMachine.Fault

/-!
Documents with values in them. How a value is laid out in a document is a matter of their format,
of which nothing is used but what its reader makes of bytes and what its writer makes of a value.
-/
namespace WordMachine

/-- What was written of a value, and the fault that ended the writing, if there was one. -/
structure Written where
  bytes : List UInt8
  fault : Option Fault
deriving DecidableEq

/-- A format of documents. -/
structure Documents where
  read : List UInt8 → Except Fault Value
  write : Value → Written

namespace Documents

/-- Reading bytes gives a value, unless they are no document or no text. -/
def IsOrderly (docs : Documents) : Prop :=
  ∀ bytes f, docs.read bytes = .error f → f = .malformedDocument ∨ ∃ e, f = .undecodable e

/-- What is written of a value without a fault is read as the same value. -/
def Keeps (docs : Documents) (v : Value) : Prop :=
  (docs.write v).fault = none → docs.read (docs.write v).bytes = .ok v

end Documents

end WordMachine
