/-
ExponentialHistogram.Mapping.Reader — configurations read from JSON.

A configuration is an object with its members in any order, unknown ones
passed over, or an array with the fields in their own order. Reading is one
step per token, folded over the tokens of the text. So the first fault from
the left is the one reported, be it a wrong shape or a broken text, and
nothing behind it matters.
-/
import ExponentialHistogram.Json.Nesting
import ExponentialHistogram.Json.Number
import ExponentialHistogram.Mapping.Configuration
import ExponentialHistogram.Text.Quoted

namespace ExponentialHistogram

open Json (Token Nesting Number)

/-! ## What can be wrong -/

/-- The fields of a configuration, in their order. -/
inductive Field where
  | scale
  | strategy
  | boundary
deriving DecidableEq, Repr

def Field.name : Field → String
  | scale => "scale"
  | strategy => "strategy"
  | boundary => "boundary"

/-- What stands in the text where something else is expected. -/
inductive Found where
  | null
  | boolean (b : Bool)
  | number (n : Number)
  | string (s : List Char)
  | sequence
  | map
deriving DecidableEq, Repr

inductive Expected where
  | integer
  | configuration
  | unit
deriving DecidableEq, Repr

/-- Faults of a text that is JSON so far. -/
inductive ShapeError where
  | missingScale
  | duplicate (f : Field)
  | unknownVariant (f : Field) (s : List Char)
  | integerOutOfRange (n : Int)
  | wrongType (found : Found) (expected : Expected)
  | emptyArray
deriving DecidableEq, Repr

inductive ReadError where
  /-- The text is not JSON, or none that a configuration could begin with. -/
  | malformed
  | shape (e : ShapeError)
deriving DecidableEq, Repr

namespace ShapeError

def foundText : Found → String
  | .null => "null"
  | .boolean true => "boolean `true`"
  | .boolean false => "boolean `false`"
  | .number (.integer n) => s!"integer `{n}`"
  | .number (.float x) => s!"floating point `{String.ofList (Json.floatText x)}`"
  | .string s => s!"string {String.ofList (Text.quoted s)}"
  | .sequence => "sequence"
  | .map => "map"

def expectedText : Expected → String
  | .integer => "i32"
  | .configuration => "struct MappingConfiguration"
  | .unit => "unit"

def variantsText : Field → String
  | .boundary => s!"`{Convention.lowerInclusive.name}` or `{Convention.upperInclusive.name}`"
  | _ => s!"`{Strategy.lookupTable.name}` or `{Strategy.logarithm.name}`"

def message : ShapeError → String
  | missingScale => "missing field `scale`"
  | duplicate f => s!"duplicate field `{f.name}`"
  | unknownVariant f s => s!"unknown variant `{String.ofList s}`, expected {variantsText f}"
  | integerOutOfRange n => s!"invalid value: integer `{n}`, expected i32"
  | wrongType found expected =>
    s!"invalid type: {foundText found}, expected {expectedText expected}"
  | emptyArray => "invalid length 0, expected struct MappingConfiguration with 3 elements"

end ShapeError

/-- The fault of a token that begins a value of the wrong type. -/
def wrongType (expected : Expected) : Token → ReadError
  | .null => .shape (.wrongType .null expected)
  | .boolean b => .shape (.wrongType (.boolean b) expected)
  | .number n =>
    match n.value? with
    | some n => .shape (.wrongType (.number n) expected)
    | none => .malformed
  | .string pieces =>
    match Json.decode? pieces with
    | some s => .shape (.wrongType (.string s) expected)
    | none => .malformed
  | .openBracket => .shape (.wrongType .sequence expected)
  | .openBrace => .shape (.wrongType .map expected)
  | _ => .malformed

/-! ## The state of the reader -/

/-- The fields that have been read. -/
structure Draft where
  scale : Option Int := none
  strategy : Option Strategy := none
  convention : Option Convention := none
deriving DecidableEq, Repr

namespace Draft

def holds (d : Draft) : Field → Bool
  | .scale => d.scale.isSome
  | .strategy => d.strategy.isSome
  | .boundary => d.convention.isSome

/-- The configuration, with defaults for what was left out. -/
def complete (d : Draft) : Except ReadError Configuration :=
  match d.scale with
  | none => .error (.shape .missingScale)
  | some scale => .ok ⟨scale, d.strategy.getD .lookupTable, d.convention.getD .lowerInclusive⟩

def setScale (d : Draft) (t : Token) : Except ReadError Draft :=
  match t with
  | .number n =>
    match n.value? with
    | some (.integer n) =>
      if -2 ^ 31 ≤ n ∧ n < 2 ^ 31 then .ok { d with scale := some n }
      else .error (.shape (.integerOutOfRange n))
    | _ => .error (wrongType .integer t)
  | _ => .error (wrongType .integer t)

/-- Sets a field to the variant of this name. -/
def setVariant (d : Draft) (f : Field) (name : List Char) : Except ReadError Draft :=
  let unknown := .error (.shape (.unknownVariant f name))
  match f with
  | .scale => unknown
  | .strategy =>
    match [Strategy.lookupTable, .logarithm].find? (·.name.toList == name) with
    | some s => .ok { d with strategy := some s }
    | none => unknown
  | .boundary =>
    match [Convention.lowerInclusive, .upperInclusive].find? (·.name.toList == name) with
    | some c => .ok { d with convention := some c }
    | none => unknown

end Draft

/-- Whether the fields are members of an object or elements of an array. -/
inductive Layout where
  | object
  | array
deriving DecidableEq, Repr

/-- Where the reader stands. -/
inductive Reader where
  | front
  /-- In front of a member. A first member may be missing. -/
  | member (d : Draft) (isFirst : Bool)
  /-- Behind the name of a member; `none` for an unknown one. -/
  | colon (d : Draft) (f : Option Field)
  | value (l : Layout) (d : Draft) (f : Field)
  /-- Inside the value of an unknown member. -/
  | unknown (d : Draft) (n : Nesting)
  /-- Inside a variant written as an object: in front of its name, and behind it. -/
  | variant (l : Layout) (d : Draft) (f : Field)
  | variantColon (l : Layout) (d : Draft) (f : Field)
  | variantValue (l : Layout) (d : Draft) (f : Field)
  | variantEnd (l : Layout) (d : Draft) (f : Field)
  /-- In front of the scale of an array, which may be missing. -/
  | firstElement
  /-- Behind the value of a field. -/
  | commaOrEnd (l : Layout) (d : Draft) (f : Field)
  | finished (c : Configuration)
deriving DecidableEq, Repr

namespace Reader

def readText (pieces : List Json.Piece) : Except ReadError (List Char) :=
  match Json.decode? pieces with
  | some s => .ok s
  | none => .error .malformed

/-- Begins the value of a field. -/
def readValue (l : Layout) (d : Draft) (f : Field) (t : Token) : Except ReadError Reader :=
  match f, t with
  | .scale, t => do return .commaOrEnd l (← d.setScale t) f
  | _, .string pieces => do return .commaOrEnd l (← d.setVariant f (← readText pieces)) f
  | _, .openBrace => .ok (.variant l d f)
  | _, _ => .error .malformed

/-- Reads the name of a member. -/
def readMember (d : Draft) (pieces : List Json.Piece) : Except ReadError Reader := do
  let name ← readText pieces
  match [Field.scale, .strategy, .boundary].find? (·.name.toList == name) with
  | none => return .colon d none
  | some f => if d.holds f then throw (.shape (.duplicate f)) else return .colon d (some f)

/-- Closes the configuration. -/
def finish (d : Draft) : Except ReadError Reader := do return .finished (← d.complete)

/-- Takes the next token. -/
def step (r : Reader) (t : Token) : Except ReadError Reader :=
  match r, t with
  | front, .openBrace => .ok (member {} true)
  | front, .openBracket => .ok firstElement
  | front, t => .error (wrongType .configuration t)
  | member d _, .string pieces => readMember d pieces
  | member d true, .closeBrace => finish d
  | colon d none, .colon => .ok (unknown d .front)
  | colon d (some f), .colon => .ok (value .object d f)
  | value l d f, t => readValue l d f t
  | firstElement, .closeBracket => .error (.shape .emptyArray)
  | firstElement, t => readValue .array {} .scale t
  | unknown d n, t =>
    match n.pass t with
    | .inside n => .ok (unknown d n)
    -- Which field came last only matters in an array.
    | .finished => .ok (commaOrEnd .object d .boundary)
    | .broken => .error .malformed
  | variant l d f, .string pieces => do return variantColon l (← d.setVariant f (← readText pieces)) f
  | variantColon l d f, .colon => .ok (variantValue l d f)
  | variantValue l d f, .null => .ok (variantEnd l d f)
  | variantValue _ _ _, t => .error (wrongType .unit t)
  | variantEnd l d f, .closeBrace => .ok (commaOrEnd l d f)
  | commaOrEnd .object d _, .comma => .ok (member d false)
  | commaOrEnd .object d _, .closeBrace => finish d
  | commaOrEnd .array d .scale, .comma => .ok (value .array d .strategy)
  | commaOrEnd .array d .strategy, .comma => .ok (value .array d .boundary)
  | commaOrEnd .array d _, .closeBracket => finish d
  | _, _ => .error .malformed

end Reader

/-- The configuration that a JSON text describes. -/
def Configuration.read (text : List Char) : Except ReadError Configuration := do
  match ← (Json.scan text).foldlM Reader.step .front with
  | .finished c => return c
  | _ => throw .malformed

end ExponentialHistogram
