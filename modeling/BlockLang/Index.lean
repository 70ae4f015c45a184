/-! Indices: the whole numbers of a signed machine word of 64 bits. Only they can say where in a
list something stands and how often something is repeated. -/

namespace BlockLang

/-- A number is an index. -/
def IsIndex (n : Int) : Prop := -0x8000000000000000 ≤ n ∧ n < 0x8000000000000000

instance : DecidablePred IsIndex := fun n => by unfold IsIndex; infer_instance

/-- What is said of a number that is no index. -/
def noIndexMessage : String := "cannot fit 'int' into an index-sized integer"

end BlockLang
