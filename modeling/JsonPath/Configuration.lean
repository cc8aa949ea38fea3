import JsonPath.Registry

/-! What an evaluation reads and never changes. How JSON values are held is no part of it: providers
that hold them in another way are left out. -/
namespace JsonPath

/-- How reading a path shapes its answer. -/
inductive ReadOption where
  /-- A single value is wrapped in a list. -/
  | alwaysList
  /-- Paths are given instead of values. -/
  | asPathList
  /-- An error becomes an empty answer. -/
  | suppressErrors
  deriving DecidableEq, Repr

/-- A set of options. -/
structure Options where
  alwaysList : Bool
  asPathList : Bool
  suppressErrors : Bool
  deriving DecidableEq, Repr

namespace Options

def empty : Options := ⟨false, false, false⟩

def contains (o : Options) : ReadOption → Bool
  | .alwaysList => o.alwaysList
  | .asPathList => o.asPathList
  | .suppressErrors => o.suppressErrors

def insert (o : Options) : ReadOption → Options
  | .alwaysList => { o with alwaysList := true }
  | .asPathList => { o with asPathList := true }
  | .suppressErrors => { o with suppressErrors := true }

def ofList (os : List ReadOption) : Options := os.foldl insert empty

def toList (o : Options) : List ReadOption :=
  [.alwaysList, .asPathList, .suppressErrors].filter o.contains

end Options

structure Configuration where
  registry : Registry
  options : Options

namespace Configuration

def standard : Configuration := ⟨.standard, .empty⟩

def withOptions (os : List ReadOption) : Configuration := ⟨.standard, .ofList os⟩

/-- The same configuration with one more option. -/
def addOption (c : Configuration) (o : ReadOption) : Configuration :=
  { c with options := c.options.insert o }

end Configuration
end JsonPath
