/-! Association lists kept in strictly increasing order of their string keys, compared by code
points. -/
namespace JsonPath.Dictionary

variable {α : Type}

/-- A key that is present gets the new value. -/
def insert (key : String) (value : α) : List (String × α) → List (String × α)
  | [] => [(key, value)]
  | (k, v) :: rest =>
    if key < k then (key, value) :: (k, v) :: rest
    else if key = k then (key, value) :: rest
    else (k, v) :: insert key value rest

/-- Of equal keys the last one counts. -/
def ofList (entries : List (String × α)) : List (String × α) :=
  entries.foldl (fun d e => insert e.1 e.2 d) []

def lookup? (key : String) (d : List (String × α)) : Option α := d.lookup key

def contains (key : String) (d : List (String × α)) : Bool := (lookup? key d).isSome

def keys (d : List (String × α)) : List String := d.map (·.1)

end JsonPath.Dictionary
