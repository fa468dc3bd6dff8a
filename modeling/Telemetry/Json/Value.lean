import Telemetry.Json.Token
/-!
JSON values.

A value is built from its tokens by a machine that keeps the open arrays and objects on a stack, so
nesting has no limit. Written out, a value has no blanks.
-/

namespace Telemetry.Json

inductive Value where
  | null
  | bool (b : Bool)
  | number (n : Numeral)
  | string (text : Option String)
  | array (items : List Value)
  | object (members : List (Option String × Value))

/-- An array or object that is still open, its parts last first. In `member` the key is read and
its value is to come. -/
inductive Frame where
  | array (items : List Value)
  | object (members : List (Option String × Value))
  | member (key : Option String) (before : List (Option String × Value))

inductive Expected where
  | value
  | itemOrClose
  | keyOrClose
  | key
  | colon
  | rest
  deriving DecidableEq, Repr

structure Builder where
  expected : Expected
  frames : List Frame
  whole : Option Value

namespace Builder

def start : Builder := ⟨.value, [], none⟩

def place (v : Value) : List Frame → Option Builder
  | [] => some ⟨.rest, [], some v⟩
  | .array items :: outer => some ⟨.rest, .array (v :: items) :: outer, none⟩
  | .member key before :: outer => some ⟨.rest, .object ((key, v) :: before) :: outer, none⟩
  | .object _ :: _ => none

def beginValue (frames : List Frame) : Token → Option Builder
  | .openArray => some ⟨.itemOrClose, .array [] :: frames, none⟩
  | .openObject => some ⟨.keyOrClose, .object [] :: frames, none⟩
  | .null => place .null frames
  | .bool b => place (.bool b) frames
  | .number n => place (.number n) frames
  | .string s => place (.string s) frames
  | _ => none

def close : List Frame → Token → Option Builder
  | .array items :: outer, .closeArray => place (.array items.reverse) outer
  | .object members :: outer, .closeObject => place (.object members.reverse) outer
  | _, _ => none

def beginMember : List Frame → Token → Option Builder
  | .object members :: outer, .string key => some ⟨.colon, .member key members :: outer, none⟩
  | _, _ => none

def step (b : Builder) (t : Token) : Option Builder :=
  match b.expected, t with
  | .itemOrClose, .closeArray => close b.frames t
  | .keyOrClose, .closeObject => close b.frames t
  | .value, t | .itemOrClose, t => beginValue b.frames t
  | .keyOrClose, t | .key, t => beginMember b.frames t
  | .colon, .colon => some ⟨.value, b.frames, none⟩
  | .rest, .comma =>
    match b.frames with
    | .array _ :: _ => some ⟨.value, b.frames, none⟩
    | .object _ :: _ => some ⟨.key, b.frames, none⟩
    | _ => none
  | .rest, t => close b.frames t
  | _, _ => none

end Builder

namespace Value

def ofTokens? (tokens : List Token) : Option Value := do
  let b ← tokens.foldlM Builder.step Builder.start
  b.whole

def read? (bytes : Bytes) : Option Value := (tokens? bytes).bind ofTokens?

mutual

def tokens : Value → List Token
  | .null => [.null]
  | .bool b => [.bool b]
  | .number n => [.number n]
  | .string s => [.string s]
  | .array [] => [.openArray, .closeArray]
  | .array (v :: items) => .openArray :: (v.tokens ++ itemTokens items)
  | .object [] => [.openObject, .closeObject]
  | .object ((key, v) :: members) =>
    .openObject :: .string key :: .colon :: (v.tokens ++ memberTokens members)

def itemTokens : List Value → List Token
  | [] => [.closeArray]
  | v :: items => .comma :: (v.tokens ++ itemTokens items)

def memberTokens : List (Option String × Value) → List Token
  | [] => [.closeObject]
  | (key, v) :: members =>
    .comma :: .string key :: .colon :: (v.tokens ++ memberTokens members)

end

def bytes (v : Value) : Bytes := v.tokens.flatMap Token.bytes

def text (s : String) : Value := .string (some s)

end Value

end Telemetry.Json
