import FlightTrace.OrderedMap
import FlightTrace.Toml.Number

/-! Tables of TOML, and how statements build them. A table is made once: by a header, by the dots in the
keys of one section, or by headers below it, in which case one header of its own may follow. -/
namespace FlightTrace
namespace Toml

inductive Value where
  | string (s : String)
  | integer (n : Integer)
  /-- Anything else: fractions, truth values, dates, arrays and tables in braces. -/
  | other
deriving DecidableEq

/-- What made a table. -/
inductive Origin where
  /-- A header of a table below it. -/
  | implied
  /-- A key with dots. -/
  | dotted
  | header
deriving DecidableEq

inductive Item where
  | value (v : Value)
  | table (origin : Origin) (fields : List (String × Item))
  /-- Tables in a row, at least one. -/
  | tables (elements : List (List (String × Item)))

abbrev Fields := List (String × Item)

/-- A name, and the names of the tables that lead to it. -/
structure Key where
  path : List String
  name : String
deriving DecidableEq

def Key.ofNames? (names : List String) : Option Key := names.getLast?.map (⟨names.dropLast, ·⟩)

/-- Changes the table at the end of a path. Tables that are missing are made; only some tables may be
passed through. In a row of tables the way leads through the last. -/
def changeAt (passes : Origin → Bool) (made : Origin) (change : Origin → Fields → Option Fields) :
    List String → Origin → Fields → Option Fields
  | [], origin, t => change origin t
  | k :: path, _, t => do
    let item ← match t.lookup k with
      | none => (changeAt passes made change path made []).map (.table made)
      | some (.table origin u) =>
        if passes origin then (changeAt passes made change path origin u).map (.table origin)
        else none
      | some (.tables us) => do
        let u ← changeAt passes made change path .header (← us.getLast?)
        pure (Item.tables (us.dropLast ++ [u]))
      | some (.value _) => none
    return OrderedMap.insertList k item t

/-- Gives a value to a new name. The dots of its key lead only through tables that no header has made,
to one that dots have made. -/
def assign (t : Fields) (a : Key × Value) : Option Fields :=
  let set := fun origin t =>
    if (t.lookup a.1.name).isNone ∧ (a.1.path = [] ∨ origin = .dotted) then
      some (OrderedMap.insertList a.1.name (.value a.2) t)
    else none
  changeAt (· ≠ .header) .dotted set a.1.path .header t

def assignAll (t : Fields) (as : List (Key × Value)) : Option Fields := as.foldlM assign t

inductive Statement where
  | assignment (key : Key) (value : Value)
  /-- Starts a table. -/
  | header (key : Key)
  /-- Starts one more table in a row. -/
  | element (key : Key)
deriving DecidableEq

/-- A header and the assignments that follow it. -/
structure Section where
  inRow : Bool
  key : Key
  assignments : List (Key × Value)

/-- Assignments before the first header, and the sections. -/
def sections : List Statement → List (Key × Value) × List Section
  | [] => ([], [])
  | .assignment k v :: ss => ((k, v) :: (sections ss).1, (sections ss).2)
  | .header k :: ss => ([], ⟨false, k, (sections ss).1⟩ :: (sections ss).2)
  | .element k :: ss => ([], ⟨true, k, (sections ss).1⟩ :: (sections ss).2)

/-- What a section makes of the item that had its name. -/
def Section.item? (s : Section) (old : Option Item) : Option Item :=
  match s.inRow, old with
  | false, none => (assignAll [] s.assignments).map (.table .header)
  | false, some (.table .implied t) => (assignAll t s.assignments).map (.table .header)
  | true, none => (assignAll [] s.assignments).map fun t => .tables [t]
  | true, some (.tables ts) => (assignAll [] s.assignments).map fun t => .tables (ts ++ [t])
  | _, _ => none

def enter (t : Fields) (s : Section) : Option Fields :=
  let set := fun _ t =>
    (s.item? (t.lookup s.key.name)).map fun i => OrderedMap.insertList s.key.name i t
  changeAt (fun _ => true) .implied set s.key.path .header t

def ofStatements? (ss : List Statement) : Option Fields := do
  let (assignments, rest) := sections ss
  rest.foldlM enter (← assignAll [] assignments)

end Toml
end FlightTrace
