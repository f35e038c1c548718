/-! Text without the control sequences of a terminal.
Of the control characters only white space stays. Inside a sequence it interrupts:
text follows up to the next control character, and then the sequence goes on. -/
namespace RiteImage.Text

/-- Where in a control sequence a text stands. -/
inductive ControlSequence
  | outside
  | escape
  | designation
  | parameters
  | device
  | deviceParameters
  | deviceIntermediates
  | payload
  | title
  deriving DecidableEq

namespace ControlSequence

def isSpacing (c : Char) : Bool := c = '\t' || c = '\n' || c = '\x0c' || c = '\r'

def isGraphic (c : Char) : Bool := '\x80' ≤ c || (' ' ≤ c && c ≤ '~')

def endsPayload (c : Char) : Bool := (String.utf8EncodeChar c).contains 0x9C

def second? (c : Char) : Option ControlSequence :=
  if c < ' ' || '~' < c then none
  else if c ≤ '/' then some .designation
  else if c = '[' then some .parameters
  else if c = 'P' then some .device
  else if c = ']' then some .title
  else if c = 'X' || c = '^' || c = '_' then some .payload
  else some .outside

/-- Where a device string leads before its payload. Its parameters come first, and
`lastParameter` is the last character that may still be one. -/
def device? (lastParameter c : Char) : Option ControlSequence :=
  if c < ' ' || '~' < c then none
  else if c ≤ '/' then some .deviceIntermediates
  else if c ≤ lastParameter then some .deviceParameters
  else some .payload

/-- The position that a character leads to, if it leads away from this one.
Escape begins a sequence everywhere; cancel and substitute end one. -/
def next? (s : ControlSequence) (c : Char) : Option ControlSequence :=
  if c = '\x1b' then some .escape
  else if c = '\x18' || c = '\x1a' then some .outside
  else match s with
    | .outside => if '\x80' ≤ c then some .outside else none
    | .escape => second? c
    | .designation => if '0' ≤ c && c ≤ '~' then some .outside else none
    | .parameters => if '@' ≤ c && c ≤ '~' then some .outside else none
    | .device => device? '?' c
    | .deviceParameters => device? ';' c
    | .deviceIntermediates => device? '/' c
    | .payload => if endsPayload c then some .outside else none
    | .title => if c = '\x07' then some .outside else none

def shows (s : ControlSequence) (c : Char) : Bool :=
  match s with
  | .outside => isGraphic c || isSpacing c
  | .escape | .designation | .parameters => isSpacing c
  | _ => false

end ControlSequence

structure Stripping where
  inside : ControlSequence
  interrupted : Bool

namespace Stripping

def start : Stripping := ⟨.outside, false⟩

def current (s : Stripping) : ControlSequence :=
  if s.interrupted then .outside else s.inside

def next (s : Stripping) (c : Char) : Stripping :=
  ⟨(s.current.next? c).getD s.inside, s.current.shows c⟩

end Stripping

def plainFrom (s : Stripping) : List Char → List Char
  | [] => []
  | c :: rest =>
    if s.current.shows c then c :: plainFrom (s.next c) rest else plainFrom (s.next c) rest

/-- The text that is left once control sequences and control characters are gone. -/
def plain (text : String) : String := String.ofList (plainFrom .start text.toList)

end RiteImage.Text
