import DocGraph.Calendar
import DocGraph.Error

/-! # Stored form of scalars

Values of the scalar `DateTime`, single or in a list, are stored as milliseconds since the beginning of
1970. Every other scalar is stored as given. -/

namespace DocGraph.Scalar

/-- The scalar of points in time. -/
def dateTime : String := "DateTime"

/-- The stored form of a point in time; numbers and null are stored as they are. -/
def moment : Json → Except Error Json
  | .null => .ok .null
  | .num n => .ok (.num n)
  | .str s =>
    match Calendar.readMoment? s with
    | some t => .ok (.int t)
    | none => .error (.input (.badMoment s))
  | v => .error (.input (.notMoment v))

/-- The stored form of a value of a scalar. -/
def store (scalar : String) (v : Json) : Except Error Json :=
  if scalar == dateTime then
    match v with
    | .arr items => (items.mapM moment).map .arr
    | v => moment v
  else .ok v

end DocGraph.Scalar
