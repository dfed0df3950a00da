import DocGraph.Json.Basic

/-! # Order and equality of JSON values

Values of different kinds are ordered null, truth value, number, text, array, object. Numbers are
ordered as doubles, texts by code point, arrays by their items, objects first by their sorted names
and then by the values in that order. Since the order of the fields does not count, both the order and
equality compare the sorted forms (`Json.sorted`). -/

namespace DocGraph.Json

mutual

/-- The value with the fields of every object in order of their names. -/
def sorted : Json → Json
  | arr items => arr (sortedItems items)
  | obj fields => obj (sortedFields fields)
  | v => v

/-- The sorted forms of the items of an array. -/
def sortedItems : List Json → List Json
  | [] => []
  | v :: rest => sorted v :: sortedItems rest

/-- The fields in order of their names, with sorted values. -/
def sortedFields : List (String × Json) → NameMap Json
  | [] => []
  | (name, v) :: rest => NameMap.insert (sortedFields rest) name (sorted v)

end

/-- The place of a value's kind in the order. -/
def kindRank : Json → Nat
  | null => 0
  | bool _ => 1
  | num _ => 2
  | str _ => 3
  | arr _ => 4
  | obj _ => 5

/-- Names compared one after another, then by their number. -/
def compareNames : List (String × Json) → List (String × Json) → Ordering
  | [], [] => .eq
  | [], _ :: _ => .lt
  | _ :: _, [] => .gt
  | (m, _) :: xs, (n, _) :: ys => (compare m n).then (compareNames xs ys)

mutual

/-- The order on sorted values. -/
def compareSorted : Json → Json → Ordering
  | null, null => .eq
  | bool x, bool y => compare x y
  | num x, num y => compare x.rank y.rank
  | str x, str y => compare x y
  | arr xs, arr ys => compareItems xs ys
  | obj xs, obj ys => (compareNames xs ys).then (compareFields xs ys)
  | x, y => compare x.kindRank y.kindRank

/-- Items compared one after another, then by their number. -/
def compareItems : List Json → List Json → Ordering
  | [], [] => .eq
  | [], _ :: _ => .lt
  | _ :: _, [] => .gt
  | x :: xs, y :: ys => (compareSorted x y).then (compareItems xs ys)

/-- Values of equally named fields compared one after another. -/
def compareFields : List (String × Json) → List (String × Json) → Ordering
  | (_, x) :: xs, (_, y) :: ys => (compareSorted x y).then (compareFields xs ys)
  | _, _ => .eq

end

/-- The order of values. -/
def order (a b : Json) : Ordering :=
  compareSorted a.sorted b.sorted

/-- Whether two values are equal in the order. -/
def alike (a b : Json) : Bool :=
  a.order b == .eq

mutual

/-- Equality of sorted values. -/
def sameSorted : Json → Json → Bool
  | null, null => true
  | bool x, bool y => x == y
  | num x, num y => x.same y
  | str x, str y => x == y
  | arr xs, arr ys => sameItems xs ys
  | obj xs, obj ys => sameFields xs ys
  | _, _ => false

def sameItems : List Json → List Json → Bool
  | [], [] => true
  | x :: xs, y :: ys => sameSorted x y && sameItems xs ys
  | _, _ => false

def sameFields : List (String × Json) → List (String × Json) → Bool
  | [], [] => true
  | (m, x) :: xs, (n, y) :: ys => m == n && sameSorted x y && sameFields xs ys
  | _, _ => false

end

/-- Equality of values, whatever the order of the fields. A whole number and a double are never
equal. -/
def same (a b : Json) : Bool :=
  sameSorted a.sorted b.sorted

/-- The values in increasing order; equal ones keep their order. -/
def sort (values : List Json) : List Json :=
  values.mergeSort fun a b => (a.order b).isLE

end DocGraph.Json
