set_option autoImplicit false

namespace ZeroAlloc

/-- The generic method that gives out the shared empty array of a type. -/
structure Factory where
  namespaceName : String
  typeName : String
  method : String
  deriving DecidableEq

/-- `System.Array.Empty`. -/
def Factory.standard : Factory := ⟨"System", "Array", "Empty"⟩

end ZeroAlloc
