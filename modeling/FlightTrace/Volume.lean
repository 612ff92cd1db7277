import FlightTrace.Log.Site

/-! Files and folders by their paths, from one folder on that is always there. -/
namespace FlightTrace

abbrev Path := List String

structure Volume where
  nodes : List (Path × Node) := []

namespace Volume

def get? (v : Volume) (p : Path) : Option Node :=
  if p = [] then some .folder else v.nodes.lookup p

def put (v : Volume) (p : Path) (node : Option Node) : Volume :=
  let others := v.nodes.filter fun q => q.1 ≠ p
  ⟨match node with
    | some n => (p, n) :: others
    | none => others⟩

/-- Makes a folder and those that lead to it, as far as nothing is in the way. -/
def makeFolders (v : Volume) (p : Path) : Option Volume :=
  ((List.range p.length).map fun n => p.take (n + 1)).foldlM (fun v q =>
    match v.get? q with
    | none => some (v.put q (some .folder))
    | some .folder => some v
    | some _ => none) v

/-- Writes a file anew, up to a greatest length, and says whether all of it was written. -/
def write (limit : Option Nat) (p : Path) (bs : List UInt8) (v : Volume) : Bool × Volume :=
  match v.get? p with
  | some .folder => (false, v)
  | some (.device .sink) => (true, v)
  | some (.device .full) => (bs.isEmpty, v)
  | _ =>
    if v.get? p.dropLast = some .folder then
      match limit with
      | none => (true, v.put p (some (.file bs)))
      | some n => (bs.length ≤ n, v.put p (some (.file (bs.take n))))
    else (false, v)

end Volume
end FlightTrace
