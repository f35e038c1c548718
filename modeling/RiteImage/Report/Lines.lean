import RiteImage.Report.Overview

namespace RiteImage.Report

structure FileEntry where
  filename : String
  start : Nat
  encoding : String
  lines : List (Nat × Nat)

structure LinesEntry where
  index : Nat
  depth : Nat
  offset : String
  files : List FileEntry

namespace FileEntry

def of (file : FileLines) : FileEntry where
  filename := file.filename
  start := file.start.toNat
  encoding := file.lines.encoding.name
  lines := (file.lines.listing file.start).map fun (pc, line) => (pc, line.toNat)

def toJson (f : FileEntry) : Json :=
  .object [("filename", .text f.filename), ("start_pos", .number f.start),
    ("encoding", .text f.encoding),
    ("lines", .list (f.lines.map fun (pc, line) =>
      .object [("pc", .number pc), ("line", .number line)]))]

def table (f : FileEntry) : Table where
  columns := [⟨"PC", .right⟩, ⟨"Line", .right⟩]
  rows := f.lines.map fun (pc, line) => [toString pc, toString line]

def toLines (f : FileEntry) : List String :=
  s!"  {f.filename} from pc {f.start} ({f.encoding}, {f.lines.length} entries)" ::
    f.table.render "    "

end FileEntry

namespace LinesEntry

def of (index depth : Nat) (record : DebugRecord) : LinesEntry where
  index := index
  depth := depth
  offset := offsetText record.offset
  files := record.files.map FileEntry.of

def toJson (r : LinesEntry) : Json :=
  .object [("index", .number r.index), ("depth", .number r.depth), ("offset", .text r.offset),
    ("files", .list (r.files.map FileEntry.toJson))]

def toLines (r : LinesEntry) : List String :=
  if r.files.isEmpty then []
  else s!"irep #{r.index} ({r.offset})" :: (r.files.flatMap FileEntry.toLines ++ [""])

end LinesEntry

structure Lines where
  entries : List LinesEntry

namespace Lines

/-- Records without line tables are counted and then left out. -/
def of (visits : List Visit) : Lines :=
  ⟨(visits.mapIdx fun i v => v.lines.map (LinesEntry.of i v.depth)).filterMap id⟩

def toJson (r : Lines) : Json := .list (r.entries.map LinesEntry.toJson)

def toLines (r : Lines) : List String := r.entries.flatMap LinesEntry.toLines

end Lines

end RiteImage.Report
