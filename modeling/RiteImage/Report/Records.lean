import RiteImage.Report.Overview

namespace RiteImage.Report

structure RecordEntry where
  index : Nat
  depth : Nat
  offset : String
  localCount : Nat
  registerCount : Nat
  opcodeCount : Nat
  pool : List String
  symbols : List String
  childCount : Nat
  opcodes : Option (List String)

namespace RecordEntry

def of (showOpcodes : Bool) (index : Nat) (v : Visit) : RecordEntry where
  index := index
  depth := v.depth
  offset := offsetText v.record.offset
  localCount := v.record.localCount.toNat
  registerCount := v.record.registerCount.toNat
  opcodeCount := v.record.opcodes.length
  pool := v.record.pool.map Literal.text
  symbols := v.record.symbols
  childCount := v.tree.children.length
  opcodes := if showOpcodes then some (v.record.opcodes.map fun word => Text.upperHex 8 word.toNat)
    else none

def toJson (r : RecordEntry) : Json :=
  let opcodes := match r.opcodes with
    | some words => [("opcodes", Json.list (words.map .text))]
    | none => []
  .object ([("index", .number r.index), ("depth", .number r.depth), ("offset", .text r.offset),
    ("nlocals", .number r.localCount), ("nregs", .number r.registerCount),
    ("opcode_count", .number r.opcodeCount), ("pool", .list (r.pool.map .text)),
    ("symbols", .list (r.symbols.map .text)), ("children", .number r.childCount)] ++ opcodes)

def cells (r : RecordEntry) : List String :=
  [toString r.index, Table.blank (2 * r.depth) ++ "irep", r.offset, toString r.localCount,
    toString r.registerCount, toString r.opcodeCount, toString r.pool.length,
    toString r.symbols.length, toString r.childCount]

def codeLines (words : List String) : List String :=
  match words with
  | [] => []
  | word :: rest =>
    ("  code       " ++ " ".intercalate (word :: rest.take 7)) :: codeLines (rest.drop 7)
termination_by words.length
decreasing_by simp only [List.length_drop, List.length_cons]; omega

def details (r : RecordEntry) : List String :=
  let pool := r.pool.mapIdx fun i literal => s!"  pool[{i}]    {literal}"
  let symbols := r.symbols.mapIdx fun i symbol => s!"  sym[{i}]     {symbol}"
  let body := pool ++ symbols ++ codeLines (r.opcodes.getD [])
  if body.isEmpty then [] else ["", s!"irep #{r.index} ({r.offset})"] ++ body

end RecordEntry

structure Records where
  entries : List RecordEntry

namespace Records

def of (showOpcodes : Bool) (visits : List Visit) : Records :=
  ⟨visits.mapIdx (RecordEntry.of showOpcodes)⟩

def toJson (r : Records) : Json := .list (r.entries.map RecordEntry.toJson)

def table (r : Records) : Table where
  columns := [⟨"#", .right⟩, ⟨"Irep", .left⟩, ⟨"Offset", .left⟩, ⟨"Locals", .right⟩,
    ⟨"Regs", .right⟩, ⟨"Opcodes", .right⟩, ⟨"Pool", .right⟩, ⟨"Symbols", .right⟩,
    ⟨"Children", .right⟩]
  rows := r.entries.map RecordEntry.cells

def toLines (r : Records) : List String :=
  r.table.render "" ++ r.entries.flatMap RecordEntry.details

end Records

end RiteImage.Report
