import Relational.Text.Mark
import Relational.Text.Picture
import Relational.Text.Wide

/-!
# Display width

How many columns of a fixed-width screen a text takes. A character may merge with those after it
into one picture or one letter form, so a text is measured from its end: `Following` holds what
the character before has to know.
-/
namespace Relational.Text

inductive Merger
  | alef
  | lamed
  | ya
  | yaVowel
  | consonant
  | joinedConsonant
  | tone
  | orkhonI
  | subscript
  | vowelE
  | vowelAi
  deriving DecidableEq

/-- The end of a picture that is joined to another one behind it. -/
inductive Joined
  | bare
  | keycap
  | flagLetter
  | flags (even : Bool)
  | tags (letters digits : Nat)
  deriving DecidableEq

inductive Piece
  | plain
  | newline
  | picture
  | tone
  | flagLetter
  | flags
  | joined (part : Joined)
  | letter (merger : Merger) (joined : Bool)
  deriving DecidableEq

inductive Form
  | picture | sign
  deriving DecidableEq

structure Following where
  piece : Piece := .plain
  form : Option Form := none

/-- The columns of a character, and what it is for the one before it. -/
structure Extent where
  columns : Int
  next : Following

namespace Extent

def plain (columns : Int) : Extent := ⟨columns, {}⟩
def piece (columns : Int) (p : Piece) : Extent := ⟨columns, { piece := p }⟩

end Extent

def isTifinaghConsonant : Char → Bool := Ranges.contains [(0x2d31, 0x2d65), (0x2d6f, 0x2d6f)]

def isAlef : Char → Bool :=
  Ranges.contains [(0x622, 0x623), (0x625, 0x625), (0x627, 0x627), (0x671, 0x673),
    (0x675, 0x675), (0x773, 0x774), (0x870, 0x882)]

def isLam : Char → Bool :=
  Ranges.contains [(0x644, 0x644), (0x6b5, 0x6b8), (0x76a, 0x76a), (0x8a6, 0x8a6), (0x8c7, 0x8c7)]

def hasSubscript : Char → Bool :=
  Ranges.contains [(0x1780, 0x1782), (0x1784, 0x1787), (0x1789, 0x178c), (0x178e, 0x1793),
    (0x1795, 0x1798), (0x179b, 0x179d), (0x17a0, 0x17a0), (0x17a2, 0x17a2), (0x17a7, 0x17a7),
    (0x17ab, 0x17ac), (0x17af, 0x17af)]

/-- The merging that a letter begins, seen from its right. -/
def merger? (c : Char) : Option Merger :=
  if isAlef c then some .alef
  else if c = '\u05dc' then some .lamed
  else if c = '\u1a10' then some .ya
  else if isTifinaghConsonant c then some .consonant
  else if isBetween 0xa4fc 0xa4fd c then some .tone
  else if isBetween 0x10c03 0x10c03 c then some .orkhonI
  else if hasSubscript c then some .subscript
  else if isBetween 0x16d67 0x16d67 c then some .vowelE
  else if isBetween 0x16d68 0x16d68 c then some .vowelAi
  else none

def charWidth (c : Char) : Nat :=
  if c = '\u17d8' then 3 else if isMark c then 0 else if isWide c then 2 else 1

def pieceOf (c : Char) : Piece :=
  if isPicture c then .picture
  else if isTone c then .tone
  else if isFlagLetter c then .flagLetter
  else match merger? c with
    | some m => .letter m false
    | none => .plain

def Extent.single (c : Char) : Extent := .piece (charWidth c) (pieceOf c)

def isJoiner (c : Char) : Bool := c = '\u200d'

def beforeLetter (m : Merger) (joined : Bool) (c : Char) : Extent :=
  let merged : Extent := .plain 0
  if m != .alef && isFiller c then .piece 0 (.letter m (joined || isJoiner c))
  else match m with
    | .alef =>
      if isLam c then merged
      else if isTransparent c then .piece 0 (.letter .alef false)
      else .single c
    | .lamed => if joined && c = '\u05d0' then merged else .single c
    | .ya => if joined && c = '\u1a17' then .piece 0 (.letter .yaVowel false) else .single c
    | .yaVowel => if c = '\u1a15' then merged else .single c
    | .consonant =>
      if c = '\u2d7f' then .piece 1 (.letter .joinedConsonant false)
      else if joined && isTifinaghConsonant c then merged
      else .single c
    | .joinedConsonant => if isTifinaghConsonant c then .plain (-1) else .single c
    | .tone => if isBetween 0xa4f8 0xa4fb c then merged else .single c
    | .orkhonI => if joined && isBetween 0x10c32 0x10c32 c then merged else .single c
    | .subscript => if c = '\u17d2' then .plain (-1) else .single c
    | .vowelE =>
      if isBetween 0x16d63 0x16d63 c || isBetween 0x16d69 0x16d69 c then merged
      else if isBetween 0x16d67 0x16d67 c then .piece 0 (.letter .vowelAi false)
      else .single c
    | .vowelAi => if isBetween 0x16d63 0x16d63 c then merged else .single c

def beforeJoiner (part : Joined) (c : Char) : Extent :=
  match part with
  | .bare =>
    if c = '\u20e3' then .piece 0 (.joined .keycap)
    else if isFlagLetter c then .piece 1 (.joined .flagLetter)
    else if isTone c then .piece 0 .tone
    else if isBetween 0xe007f 0xe007f c then .piece 0 (.joined (.tags 0 0))
    else if isPicture c then .piece 0 .picture
    else .single c
  | .keycap => .single c
  | .flagLetter => if isFlagLetter c then .piece (-1) (.joined (.flags true)) else .single c
  | .flags even =>
    if isJoiner c then .piece 0 (.joined .bare)
    else if isFlagLetter c then .piece (if even then 3 else -1) (.joined (.flags !even))
    else .single c
  | .tags letters digits =>
    if isTagLetter c && letters < 6 && digits = 0 then .piece 0 (.joined (.tags (letters + 1) 0))
    else if isTagDigit c && digits < 3 && (letters ≤ 4 || 0 < digits) then
      .piece 0 (.joined (.tags letters (digits + 1)))
    else if isBetween 0x1f3f4 0x1f3f4 c && ((3 ≤ letters && digits = 0) || digits = 3) then
      .piece 0 .picture
    else .single c

def beforePiece (p : Piece) (c : Char) : Extent :=
  match p with
  | .plain | .newline => .single c
  | .picture => if isJoiner c then .piece 0 (.joined .bare) else .single c
  | .tone =>
    if takesTone c then .piece 0 .picture
    else if isJoiner c then .piece 0 (.joined .bare)
    else .single c
  | .flagLetter => if isFlagLetter c then .piece 1 .flags else .single c
  | .flags =>
    if isFlagLetter c then .piece 1 .flags
    else if isJoiner c then .piece 0 (.joined .bare)
    else .single c
  | .joined part => beforeJoiner part c
  | .letter m joined => beforeLetter m joined c

namespace Following

def select (f : Following) (form : Form) : Following :=
  match f.piece, form with
  | .letter .., _ | .joined .bare, .picture | .joined .keycap, .picture => { f with form }
  | _, _ => { form }

def unselected (f : Following) : Piece :=
  match f.piece, f.form with
  | .letter .., _ | _, none => f.piece
  | _, some _ => .plain

def extent (f : Following) (c : Char) : Extent :=
  if f.form = some .picture && hasPictureForm c then
    .piece (if f.piece matches .joined _ then 0 else 2) .picture
  else if c ≤ '\u00a0' then
    if c = '\n' then .piece 1 .newline
    else .plain (if c = '\r' && f.piece = .newline then 0 else 1)
  else if c = '\ufe0f' then ⟨0, { piece := f.unselected : Following }.select .picture⟩
  else if c = '\ufe0e' then ⟨0, { piece := f.unselected : Following }.select .sign⟩
  else if f.form = some .sign && hasSignForm c then .plain 1
  else beforePiece f.unselected c

end Following

/-- The columns of a text, and what it is for a character before it. -/
def measure (cs : List Char) : Extent :=
  cs.foldr (fun c e => let f := e.next.extent c; ⟨e.columns + f.columns, f.next⟩) (.plain 0)

def width (s : String) : Nat := (measure s.toList).columns.toNat

def padTo (n : Nat) (s : String) : String :=
  s ++ String.ofList (List.replicate (n - width s) ' ')

end Relational.Text
