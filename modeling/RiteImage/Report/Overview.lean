import RiteImage.Image.Basic
import RiteImage.Report.Json
import RiteImage.Report.Table

namespace RiteImage.Report

def offsetText (offset : Nat) : String := "0x" ++ Text.upperHex 6 offset

structure SectionLine where
  tag : String
  kind : String
  offset : String
  size : Nat

structure Overview where
  file : String
  magic : String
  version : String
  checksum : String
  size : Nat
  compiler : String
  compilerVersion : String
  irepRecords : Nat
  filenames : List String
  sections : List SectionLine

namespace SectionLine

def of (s : Section) : SectionLine := ⟨s.tagText, s.kind.name, offsetText s.offset, s.size.toNat⟩

def toJson (s : SectionLine) : Json :=
  .object [("tag", .text s.tag), ("kind", .text s.kind), ("offset", .text s.offset),
    ("size", .number s.size)]

def cells (s : SectionLine) : List String := [s.tag, s.kind, s.offset, toString s.size]

end SectionLine

namespace Overview

def of (file : String) (image : Image) : Overview where
  file := file
  magic := image.header.magic.text
  version := image.header.version.text
  checksum := "0x" ++ Text.upperHex 4 image.header.checksum.toNat
  size := image.header.size.toNat
  compiler := image.header.compilerName.text
  compilerVersion := image.header.compilerVersion.text
  irepRecords := (image.irep.map fun s => s.root.size).getD 0
  filenames := image.debugSections.flatMap DebugSection.filenames
  sections := image.sections.toList.map SectionLine.of

def toJson (o : Overview) : Json :=
  let filenames := if o.filenames.isEmpty then []
    else [("filenames", Json.list (o.filenames.map .text))]
  .object ([("file", .text o.file), ("magic", .text o.magic), ("version", .text o.version),
    ("checksum", .text o.checksum), ("size", .number o.size), ("compiler", .text o.compiler),
    ("compiler_version", .text o.compilerVersion), ("irep_records", .number o.irepRecords)] ++
    filenames ++ [("sections", .list (o.sections.map SectionLine.toJson))])

def table (o : Overview) : Table where
  columns := [⟨"Tag", .left⟩, ⟨"Kind", .left⟩, ⟨"Offset", .left⟩, ⟨"Size", .right⟩]
  rows := o.sections.map SectionLine.cells

def toLines (o : Overview) : List String :=
  let filenames := if o.filenames.isEmpty then []
    else ["Source files:    " ++ ", ".intercalate o.filenames]
  [s!"File:            {o.file}",
    s!"Format:          {o.magic} {o.version}",
    s!"Compiler:        {o.compiler} {o.compilerVersion}",
    s!"Checksum:        {o.checksum}",
    s!"Size:            {o.size} bytes",
    s!"Irep records:    {o.irepRecords}"] ++
    filenames ++ ["", s!"Sections ({o.sections.length}):"] ++ o.table.render "  "

end Overview

end RiteImage.Report
