import Mathlib.Data.List.Induction
import RiteImage.Proofs.BlankEnds
import RiteImage.Report.Table

namespace RiteImage

namespace Text

def words (cs : List Char) : List (List Char) := (cs.splitOnP isBlank).filter fun part => !part.isEmpty

variable {cs front back : List Char} {c : Char}

end Text

namespace Table

open Text

variable {t : Table} {cell : String} {row : List String} {sizes : List Nat}

def padded (t : Table) (row : List String) : List (List Char) :=
  List.zipWith (fun (c : Column × Nat) cell => (pad c.1.alignment c.2 cell).toList)
    (t.columns.zip t.widths) row

def line (t : Table) (row : List String) : List Char :=
  trimEnd ([' ', ' '].intercalate (t.padded row))

end Table

end RiteImage
