import RiteImage.Data.Bisect

namespace RiteImage

inductive LineKind
  | array
  | map
  deriving DecidableEq

def LineKind.ofTag? : UInt8 → Option LineKind
  | 0 => some .array
  | 1 => some .map
  | _ => none

def LineKind.name : LineKind → String
  | .array => "array"
  | .map => "map"

structure LineEntry where
  offset : UInt32
  line : UInt16
  deriving DecidableEq

inductive LineTable
  | array (lines : Array UInt16)
  | map (entries : Array LineEntry)
  deriving DecidableEq

namespace LineTable

def encoding : LineTable → LineKind
  | .array _ => .array
  | .map _ => .map

def size : LineTable → Nat
  | .array lines => lines.size
  | .map entries => entries.size

def lineAt (table : LineTable) (start pc : UInt32) : Option UInt16 :=
  if pc < start then none
  else match table with
    | .array lines => lines[pc.toNat - start.toNat]?
    | .map entries =>
      match border (fun entry => entry.offset ≤ pc) entries with
      | 0 => none
      | after + 1 => entries[after]?.map LineEntry.line

/-- Every entry as an instruction and its line. Instructions of an array have no upper limit. -/
def listing (table : LineTable) (start : UInt32) : List (Nat × UInt16) :=
  match table with
  | .array lines => lines.toList.mapIdx fun i line => (start.toNat + i, line)
  | .map entries => entries.toList.map fun entry => (entry.offset.toNat, entry.line)

end LineTable

end RiteImage
