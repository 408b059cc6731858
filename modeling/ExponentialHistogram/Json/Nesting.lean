/-
ExponentialHistogram.Json.Nesting — the end of a JSON value of any shape.

A value that is of no interest is passed over token by token. All that has
to be remembered are the brackets that are still open and what may come
next, so values may be nested to any depth.
-/
import ExponentialHistogram.Json.Token

namespace ExponentialHistogram.Json

inductive Bracket where
  | array
  | object
deriving DecidableEq, Repr

/-- What has to come next inside a value. -/
inductive Expectation where
  | value
  | valueOrEnd
  | key
  | keyOrEnd
  | colon
  | commaOrEnd
deriving DecidableEq, Repr

/-- A place inside a value. The innermost bracket comes first. -/
structure Nesting where
  brackets : List Bracket
  expectation : Expectation
deriving DecidableEq, Repr

/-- What a token does to an unfinished value. -/
inductive Passage where
  | inside (n : Nesting)
  | finished
  | broken
deriving DecidableEq, Repr

namespace Nesting

/-- In front of a value. -/
def front : Nesting := ⟨[], .value⟩

/-- Behind a complete value within these brackets. -/
def behind : List Bracket → Passage
  | [] => .finished
  | brackets => .inside ⟨brackets, .commaOrEnd⟩

/-- Passes over a token. -/
def pass (n : Nesting) (t : Token) : Passage :=
  match n.expectation, t with
  | .value, .null | .valueOrEnd, .null => behind n.brackets
  | .value, .boolean _ | .valueOrEnd, .boolean _ => behind n.brackets
  | .value, .number _ | .valueOrEnd, .number _ => behind n.brackets
  | .value, .string _ | .valueOrEnd, .string _ => behind n.brackets
  | .value, .openBracket | .valueOrEnd, .openBracket =>
    .inside ⟨.array :: n.brackets, .valueOrEnd⟩
  | .value, .openBrace | .valueOrEnd, .openBrace => .inside ⟨.object :: n.brackets, .keyOrEnd⟩
  | .valueOrEnd, .closeBracket => behind n.brackets.tail
  | .key, .string _ | .keyOrEnd, .string _ => .inside ⟨n.brackets, .colon⟩
  | .keyOrEnd, .closeBrace => behind n.brackets.tail
  | .colon, .colon => .inside ⟨n.brackets, .value⟩
  | .commaOrEnd, t =>
    match n.brackets, t with
    | .array :: _, .comma => .inside ⟨n.brackets, .value⟩
    | .array :: outer, .closeBracket => behind outer
    | .object :: _, .comma => .inside ⟨n.brackets, .key⟩
    | .object :: outer, .closeBrace => behind outer
    | _, _ => .broken
  | _, _ => .broken

end Nesting

end ExponentialHistogram.Json
