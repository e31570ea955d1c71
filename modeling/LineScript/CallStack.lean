/-!
# The stack of calls

Calls nest up to a limit, and each is given a share of the native stack, which tells a host how large a stack to
provide.
-/

namespace LineScript.CallStack

/-- The limit of nested calls where the host sets no other. -/
def defaultLimit : Nat := 8192

def bytesPerCall : Nat := 32 * 1024

/-- What a stack has to spare besides its calls. -/
def reserve : Nat := 1024 * 1024

def maxSize : Nat := Nat.pow 2 64 - 1

/-- The bytes of stack that a number of nested calls needs. -/
def sizeFor (calls : Nat) : Nat :=
  min maxSize (min maxSize (calls * bytesPerCall) + reserve)

end LineScript.CallStack
