import Relational.Json.Numeral

/-!
# Reading documents

Characters are grouped into tokens and tokens into a document, each by one pass of a machine.
Where the text goes wrong, the containers open at that point are closed around `Flaw.broken`.
-/
namespace Relational.Json

inductive Token
  | openArray | closeArray | openObject | closeObject | comma | colon
  | text (value : Option String)
  | bare (value : String)
  | bad
  deriving DecidableEq

inductive Escape
  | none
  | started
  | code (missing : Nat) (value : Nat) (first : Option Nat)
  | second (first : Nat) (started : Bool)

inductive Lexer
  | idle
  /-- The characters so far are in reverse, none if half a surrogate pair was among them. -/
  | quoted (reversed : Option (List Char)) (escape : Escape)
  | bare (reversed : List Char)
  | stuck

namespace Lexer

def structural? : Char → Option Token
  | '[' => some .openArray
  | ']' => some .closeArray
  | '{' => some .openObject
  | '}' => some .closeObject
  | ',' => some .comma
  | ':' => some .colon
  | _ => none

def isSpace (c : Char) : Bool := c == ' ' || c == '\n' || c == '\r' || c == '\t'

def hexDigit? (c : Char) : Option Nat :=
  if c.isDigit then some (c.toNat - '0'.toNat)
  else if 'a' ≤ c && c ≤ 'f' then some (c.toNat - 'a'.toNat + 10)
  else if 'A' ≤ c && c ≤ 'F' then some (c.toNat - 'A'.toNat + 10)
  else none

def shortEscape? : Char → Option Char
  | '"' => some '"'
  | '\\' => some '\\'
  | '/' => some '/'
  | 'b' => some '\x08'
  | 'f' => some '\x0c'
  | 'n' => some '\n'
  | 'r' => some '\r'
  | 't' => some '\t'
  | _ => none

def add (reversed : Option (List Char)) (c : Char) : Lexer :=
  .quoted (reversed.map (c :: ·)) .none

def codePoint (reversed : Option (List Char)) (code : Nat) : Option Nat → Lexer
  | none =>
    if 0xd800 ≤ code && code ≤ 0xdbff then .quoted reversed (.second code false)
    else if 0xdc00 ≤ code && code ≤ 0xdfff then .quoted none .none
    else add reversed (Char.ofNat code)
  | some first =>
    if 0xdc00 ≤ code && code ≤ 0xdfff then
      add reversed (Char.ofNat (0x10000 + (first - 0xd800) * 0x400 + (code - 0xdc00)))
    else .quoted none .none

def idleStep (c : Char) : Lexer × List Token :=
  if isSpace c then (.idle, [])
  else if c == '"' then (.quoted (some []) .none, [])
  else match structural? c with
    | some t => (.idle, [t])
    | none => (.bare [c], [])

def plainStep (reversed : Option (List Char)) (c : Char) : Lexer × List Token :=
  if c == '"' then (.idle, [.text (reversed.map fun cs => String.ofList cs.reverse)])
  else if c == '\\' then (.quoted reversed .started, [])
  else if c.toNat < 0x20 then (.stuck, [.bad])
  else (add reversed c, [])

def escapeStep (reversed : Option (List Char)) (c : Char) : Lexer × List Token :=
  if c == 'u' then (.quoted reversed (.code 4 0 none), [])
  else match shortEscape? c with
    | some d => (add reversed d, [])
    | none => (.stuck, [.bad])

def quotedStep (reversed : Option (List Char)) (c : Char) : Escape → Lexer × List Token
  | .none => plainStep reversed c
  | .started => escapeStep reversed c
  | .code missing value first =>
    match hexDigit? c with
    | none => (.stuck, [.bad])
    | some d =>
      let value := 16 * value + d
      if missing ≤ 1 then (codePoint reversed value first, [])
      else (.quoted reversed (.code (missing - 1) value first), [])
  | .second first false =>
    if c == '\\' then (.quoted reversed (.second first true), []) else plainStep none c
  | .second first true =>
    if c == 'u' then (.quoted reversed (.code 4 0 (some first)), []) else escapeStep none c

def step (c : Char) : Lexer → Lexer × List Token
  | .idle => idleStep c
  | .quoted reversed escape => quotedStep reversed c escape
  | .bare reversed =>
    if isSpace c || c == '"' || (structural? c).isSome then
      let (next, tokens) := idleStep c
      (next, .bare (String.ofList reversed.reverse) :: tokens)
    else (.bare (c :: reversed), [])
  | .stuck => (.stuck, [])

def finish : Lexer → List Token
  | .idle | .stuck => []
  | .quoted .. => [.bad]
  | .bare reversed => [.bare (String.ofList reversed.reverse)]

end Lexer

/-- One character more; the tokens so far are in reverse. -/
def Lexer.feed (state : Lexer × List Token) (c : Char) : Lexer × List Token :=
  let (next, out) := state.1.step c
  (next, out.reverse ++ state.2)

def tokens (cs : List Char) : List Token :=
  let (state, reversed) := cs.foldl Lexer.feed (.idle, [])
  reversed.reverse ++ state.finish

def bareValue? : String → Option Json
  | "null" => some .null
  | "true" => some (.bool true)
  | "false" => some (.bool false)
  | s => (Numeral.parse? s.toList).map Numeral.toJson

inductive Frame
  | array (reversed : List Json)
  | object (reversed : List (String × Json)) (key : Option String)

inductive Expect
  | value | valueOrClose | key | keyOrClose | colon | commaOrClose

inductive Parser
  | reading (stack : List Frame) (expect : Expect)
  | complete (value : Json)
  | trailing (value : Json)
  | failed (value : Json)

namespace Parser

def depthLimit : Nat := 127

def closeAll (inner : Json) : List Frame → Json
  | [] => inner
  | .array reversed :: rest => closeAll (.array (inner :: reversed).reverse) rest
  | .object reversed key :: rest =>
    closeAll (.object ((key.getD "", inner) :: reversed).reverse) rest

/-- What was read when the text went wrong, as far as it can be used. -/
def abandon (stack : List Frame) : Json :=
  closeAll (.flawed .broken) (stack.drop (stack.length - depthLimit))

def fail (stack : List Frame) : Parser := .failed (abandon stack)

def field (key : Option String) (value : Json) : String × Json :=
  match key with
  | some key => (key, value)
  | none => ("", .flawed .unnamed)

def plug (value : Json) : List Frame → Parser
  | [] => .complete value
  | .array reversed :: rest => .reading (.array (value :: reversed) :: rest) .commaOrClose
  | .object reversed key :: rest =>
    .reading (.object (field key value :: reversed) none :: rest) .commaOrClose

def close (container : Json) (rest : List Frame) : Parser :=
  plug (if (rest.drop (depthLimit - 1)).isEmpty then container else .flawed .unusable) rest

def valueStep (t : Token) (stack : List Frame) : Parser :=
  match t with
  | .text s => plug (s.elim (.flawed .unusable) .string) stack
  | .bare s => match bareValue? s with
    | some j => plug j stack
    | none => fail stack
  | .openArray => .reading (.array [] :: stack) .valueOrClose
  | .openObject => .reading (.object [] none :: stack) .keyOrClose
  | _ => fail stack

def keyStep (t : Token) (stack : List Frame) : Parser :=
  match t, stack with
  | .text s, .object reversed _ :: rest => .reading (.object reversed s :: rest) .colon
  | _, _ => fail stack

def closeStep (t : Token) (stack : List Frame) : Option Parser :=
  match t, stack with
  | .closeArray, .array reversed :: rest => some (close (.array reversed.reverse) rest)
  | .closeObject, .object reversed _ :: rest => some (close (.object reversed.reverse) rest)
  | _, _ => none

def commaStep (t : Token) (stack : List Frame) : Parser :=
  match t, stack with
  | .comma, .array _ :: _ => .reading stack .value
  | .comma, .object .. :: _ => .reading stack .key
  | _, _ => fail stack

def step (state : Parser) (t : Token) : Parser :=
  match state with
  | .complete value | .trailing value => .trailing value
  | .failed value => .failed value
  | .reading stack .value => valueStep t stack
  | .reading stack .valueOrClose => (closeStep t stack).getD (valueStep t stack)
  | .reading stack .key => keyStep t stack
  | .reading stack .keyOrClose => (closeStep t stack).getD (keyStep t stack)
  | .reading stack .colon => if t = .colon then .reading stack .value else fail stack
  | .reading stack .commaOrClose => (closeStep t stack).getD (commaStep t stack)

end Parser

structure Source where
  document : Json
  trailing : Bool

def read (text : String) : Source :=
  match (tokens text.toList).foldl Parser.step (.reading [] .value) with
  | .complete value => ⟨value, false⟩
  | .trailing value => ⟨value, true⟩
  | .failed value => ⟨value, false⟩
  | .reading stack _ => ⟨Parser.abandon stack, false⟩

def Source.intact (s : Source) : Bool := s.document.intact && !s.trailing

end Relational.Json
