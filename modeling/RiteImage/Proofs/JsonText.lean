import Mathlib.Data.List.Forall2
import RiteImage.Report.Json

namespace RiteImage

namespace Json

def IsSpace (text : List Char) : Prop := ∀ c ∈ text, c ∈ [' ', '\t', '\n', '\r']

def shortEscapes : List (Char × Char) :=
  [('\"', '\"'), ('\\', '\\'), ('/', '/'), ('b', '\x08'), ('f', '\x0c'), ('n', '\n'), ('r', '\r'),
    ('t', '\t')]

def hexDigit? (c : Char) : Option Nat :=
  if c.isDigit then some (c.toNat - '0'.toNat)
  else if 'a' ≤ c ∧ c ≤ 'f' then some (10 + (c.toNat - 'a'.toNat))
  else if 'A' ≤ c ∧ c ≤ 'F' then some (10 + (c.toNat - 'A'.toNat))
  else none

def hexValue? (digits : List Char) : Option Nat :=
  digits.foldlM (fun n c => (hexDigit? c).map (16 * n + ·)) 0

inductive SpellsChar (c : Char) : List Char → Prop
  | plain (ordinary : ' ' ≤ c ∧ c ≠ '\"' ∧ c ≠ '\\') : SpellsChar c [c]
  | short {mark : Char} (listed : (mark, c) ∈ shortEscapes) : SpellsChar c ['\\', mark]
  | code {digits : List Char} (four : digits.length = 4) (value : hexValue? digits = some c.toNat) :
      SpellsChar c ('\\' :: 'u' :: digits)

def SpellsText (s : String) (text : List Char) : Prop :=
  ∃ parts, List.Forall₂ SpellsChar s.toList parts ∧ text = '\"' :: (parts.flatten ++ ['\"'])

/-- Entries with a comma between any two of them. -/
inductive Separated {α : Type} (spells : α → List Char → Prop) : List α → List Char → Prop
  | none {space : List Char} (blank : IsSpace space) : Separated spells [] space
  | last {a : α} {before text after : List Char} (blank : IsSpace before)
      (entry : spells a text) (blank' : IsSpace after) :
      Separated spells [a] (before ++ text ++ after)
  | more {a b : α} {others : List α} {before text after rest : List Char} (blank : IsSpace before)
      (entry : spells a text) (blank' : IsSpace after) (entries : Separated spells (b :: others) rest) :
      Separated spells (a :: b :: others) (before ++ text ++ after ++ ',' :: rest)

mutual

/-- The text is one of a value. -/
inductive Spells : Json → List Char → Prop
  | number (n : Nat) : Spells (.number n) (Nat.toDigits 10 n)
  | text {s : String} {quoted : List Char} (spells : SpellsText s quoted) : Spells (.text s) quoted
  | list {items : List Json} {body : List Char} (entries : Separated Spells items body) :
      Spells (.list items) ('[' :: (body ++ [']']))
  | object {fields : List (String × Json)} {body : List Char}
      (entries : Separated SpellsField fields body) :
      Spells (.object fields) ('\x7b' :: (body ++ ['\x7d']))

inductive SpellsField : String × Json → List Char → Prop
  | mk {key : String} {value : Json} {name before after text : List Char}
      (names : SpellsText key name) (blank : IsSpace before) (blank' : IsSpace after)
      (spells : Spells value text) :
      SpellsField (key, value) (name ++ before ++ ':' :: (after ++ text))

end

theorem isSpace_nil : IsSpace [] := nofun

theorem isSpace_blank : IsSpace [' '] := by
  simp [IsSpace]

theorem isSpace_newline (level : Nat) : IsSpace (newline level).toList := by
  intro c member
  simp only [newline, String.toList_append, String.toList_ofList, List.mem_append,
    List.mem_replicate] at member
  rcases member with first | ⟨-, rfl⟩
  · simp at first
    simp [first]
  · simp

def Continues {α : Type} (spells : α → List Char → Prop) (others : List α) (rest : List Char) : Prop :=
  ∀ {a : α} {before text after : List Char}, IsSpace before → spells a text → IsSpace after →
    Separated spells (a :: others) (before ++ text ++ (rest ++ after))

section Continues

variable {α : Type} {spells : α → List Char → Prop}

theorem continues_nil : Continues spells [] [] :=
  fun blank entry blank' => .last blank entry blank'

theorem Continues.cons {a : α} {others : List α} {space text rest : List Char}
    (entries : Continues spells others rest) (blank : IsSpace space) (entry : spells a text) :
    Continues spells (a :: others) (',' :: (space ++ text ++ rest)) := by
  intro first before front after blank' entry' blank''
  have behind := entries blank entry blank''
  simpa using Separated.more blank' entry' isSpace_nil behind

end Continues

theorem code_of_control :
    ∀ n < 32, (Text.padLeft 4 '0' (Nat.toDigits 16 n)).length = 4 ∧
      hexValue? (Text.padLeft 4 '0' (Nat.toDigits 16 n)) = some n := by
  decide

theorem spellsChar_escape (c : Char) : SpellsChar c (escape c) := by
  unfold escape
  split_ifs with quote backslash back tab line feed carriage control
  · subst quote
    exact .short (by decide)
  · subst backslash
    exact .short (by decide)
  · subst back
    exact .short (by decide)
  · subst tab
    exact .short (by decide)
  · subst line
    exact .short (by decide)
  · subst feed
    exact .short (by decide)
  · subst carriage
    exact .short (by decide)
  · obtain ⟨four, value⟩ := code_of_control c.toNat control
    exact .code four value
  · exact .plain ⟨Char.not_lt.mp control, quote, backslash⟩

theorem spellsText_quote (s : String) : SpellsText s (quote s).toList := by
  refine ⟨s.toList.map escape, ?_, ?_⟩
  · simp [List.forall₂_map_right_iff, List.forall₂_same, spellsChar_escape]
  · simp [quote, List.flatMap_def]

theorem spellsField (key : String) {value : Json} {text : List Char} (spells : Spells value text) :
    SpellsField (key, value) ((quote key).toList ++ ':' :: ' ' :: text) := by
  have field := SpellsField.mk (spellsText_quote key) isSpace_nil isSpace_blank spells
  simpa using field

mutual

theorem spells_write (level : Nat) (out : String) : (value : Json) →
    ∃ text, (write level out value).toList = out.toList ++ text ∧ Spells value text
  | .number n => ⟨_, by simp [write, Nat.toList_repr], .number n⟩
  | .text s => ⟨_, by simp [write], .text (spellsText_quote s)⟩
  | .list [] => ⟨['[', ']'], by simp [write], .list (.none isSpace_nil)⟩
  | .list (item :: items) => by
    obtain ⟨text, first, spells⟩ := spells_write (level + 1) (out ++ "[" ++ newline (level + 1)) item
    obtain ⟨rest, others, entries⟩ := spells_writeItems (level + 1)
      (write (level + 1) (out ++ "[" ++ newline (level + 1)) item) items
    have body := entries (isSpace_newline (level + 1)) spells (isSpace_newline level)
    refine ⟨_, ?_, .list body⟩
    simp [write, first, others]
  | .object [] => ⟨['\x7b', '\x7d'], by simp [write], .object (.none isSpace_nil)⟩
  | .object ((key, value) :: fields) => by
    let opened := out ++ "\x7b" ++ newline (level + 1) ++ quote key ++ ": "
    obtain ⟨text, first, spells⟩ := spells_write (level + 1) opened value
    obtain ⟨rest, others, entries⟩ := spells_writeFields (level + 1)
      (write (level + 1) opened value) fields
    have body := entries (isSpace_newline (level + 1)) (spellsField key spells) (isSpace_newline level)
    refine ⟨_, ?_, .object body⟩
    simp [write, opened, first, others]

theorem spells_writeItems (level : Nat) (out : String) : (items : List Json) →
    ∃ rest, (writeItems level out items).toList = out.toList ++ rest ∧ Continues Spells items rest
  | [] => ⟨[], by simp [writeItems], continues_nil⟩
  | item :: items => by
    obtain ⟨text, first, spells⟩ := spells_write level (out ++ "," ++ newline level) item
    obtain ⟨rest, others, entries⟩ := spells_writeItems level
      (write level (out ++ "," ++ newline level) item) items
    refine ⟨_, ?_, entries.cons (isSpace_newline level) spells⟩
    simp [writeItems, first, others]

theorem spells_writeFields (level : Nat) (out : String) : (fields : List (String × Json)) →
    ∃ rest, (writeFields level out fields).toList = out.toList ++ rest ∧
      Continues SpellsField fields rest
  | [] => ⟨[], by simp [writeFields], continues_nil⟩
  | (key, value) :: fields => by
    let named := out ++ "," ++ newline level ++ quote key ++ ": "
    obtain ⟨text, first, spells⟩ := spells_write level named value
    obtain ⟨rest, others, entries⟩ := spells_writeFields level (write level named value) fields
    refine ⟨_, ?_, entries.cons (isSpace_newline level) (spellsField key spells)⟩
    simp [writeFields, named, first, others]

end

end Json

end RiteImage
