/-
ExponentialHistogram.Proofs.Json.Grammar — values of any shape and their end.

`Derives` is the grammar of JSON over tokens: scalars, arrays and objects, nested
to any depth. A value is passed over from its first token to its last, and then the
place is the one behind it (`Derives.passes`). In a phrase of the grammar two
tokens that follow one another are told apart by punctuation
(`Derives.punctuated`), so a text that spells it is scanned as it is meant.
-/
import Mathlib
import ExponentialHistogram.Json.Nesting
import ExponentialHistogram.Proofs.Json.Spelling

namespace ExponentialHistogram.Json

def Token.IsScalar : Token → Prop
  | null | boolean _ | number _ | string _ => True
  | _ => False

/-- The kinds of phrases: a value, one or more elements of an array, one or more members of an
object. -/
inductive Phrase where
  | value
  | elements
  | members

/-- The grammar. The tokens of a phrase stand one after the other. -/
inductive Derives : Phrase → List Token → Prop where
  | scalar {t : Token} (h : t.IsScalar) : Derives .value [t]
  | emptyArray : Derives .value [.openBracket, .closeBracket]
  | array {ts : List Token} (h : Derives .elements ts) :
    Derives .value (.openBracket :: (ts ++ [.closeBracket]))
  | emptyObject : Derives .value [.openBrace, .closeBrace]
  | object {ts : List Token} (h : Derives .members ts) :
    Derives .value (.openBrace :: (ts ++ [.closeBrace]))
  | lastElement {v : List Token} (h : Derives .value v) : Derives .elements v
  | element {v ts : List Token} (h : Derives .value v) (hmore : Derives .elements ts) :
    Derives .elements (v ++ .comma :: ts)
  | lastMember {key : List Piece} {v : List Token} (h : Derives .value v) :
    Derives .members (.string key :: .colon :: v)
  | member {key : List Piece} {v ts : List Token} (h : Derives .value v)
    (hmore : Derives .members ts) :
    Derives .members (.string key :: .colon :: (v ++ .comma :: ts))

variable {k : Phrase} {ts us : List Token} {t : Token}

/-! ## Punctuation -/

theorem Punctuated.nil : Punctuated [] := List.isChain_nil

theorem Punctuated.singleton (t : Token) : Punctuated [t] := List.isChain_singleton t

theorem Punctuated.mark_cons (hmark : t.IsMark) (h : Punctuated ts) : Punctuated (t :: ts) :=
  List.isChain_cons.mpr ⟨fun _ _ => Or.inl hmark, h⟩

theorem Punctuated.append_mark (h : Punctuated ts) (hmark : t.IsMark) (h' : Punctuated us) :
    Punctuated (ts ++ t :: us) :=
  List.isChain_append.mpr
    ⟨h, h'.mark_cons hmark, fun _ _ _ hy => Or.inr (Option.some.inj hy ▸ hmark)⟩

/-- The name of a member stands in front of a colon. -/
theorem Punctuated.key_cons (key : List Piece) (h : Punctuated ts) :
    Punctuated (.string key :: .colon :: ts) :=
  (Punctuated.singleton (.string key)).append_mark trivial h

theorem Derives.punctuated (h : Derives k ts) : Punctuated ts := by
  induction h with
  | scalar _ => exact .singleton _
  | emptyArray => exact .mark_cons trivial (.singleton _)
  | array _ ih => exact .mark_cons trivial (ih.append_mark (t := .closeBracket) trivial .nil)
  | emptyObject => exact .mark_cons trivial (.singleton _)
  | object _ ih => exact .mark_cons trivial (ih.append_mark (t := .closeBrace) trivial .nil)
  | lastElement _ ih => exact ih
  | element _ _ ih ihmore => exact ih.append_mark (t := .comma) trivial ihmore
  | lastMember _ ih => exact ih.key_cons _
  | member _ _ ih ihmore => exact (ih.append_mark (t := .comma) trivial ihmore).key_cons _

/-! ## Passing over a value -/

namespace Nesting

/-- The tokens are passed over, and what becomes of the value in the end. Before that it is
unfinished. -/
inductive Passes : Nesting → List Token → Passage → Prop where
  | last {n : Nesting} {t : Token} {p : Passage} (h : n.pass t = p) : Passes n [t] p
  | step {n n' : Nesting} {t : Token} {ts : List Token} {p : Passage} (h : n.pass t = .inside n')
    (hmore : Passes n' ts p) : Passes n (t :: ts) p

theorem Passes.append {n n' : Nesting} {p : Passage} (h : Passes n ts (.inside n'))
    (h' : Passes n' us p) : Passes n (ts ++ us) p := by
  generalize hp : Passage.inside n' = q at h
  induction h with
  | last hpass => exact .step (hpass.trans hp.symm) h'
  | step hpass _ ih => exact .step hpass (ih hp)

end Nesting

open Nesting

/-- The brackets around the parts of a phrase inside these. -/
def Phrase.within (brackets : List Bracket) : Phrase → List Bracket
  | value => brackets
  | elements => .array :: brackets
  | members => .object :: brackets

/-- What is expected in front of a phrase. Right behind a bracket, that might be closed again. -/
def Phrase.front (isFirst : Bool) : Phrase → Expectation
  | value | elements => if isFirst then .valueOrEnd else .value
  | members => if isFirst then .keyOrEnd else .key

/-- **A phrase is passed over to its end**, whatever it is nested in and whatever is nested in it. -/
theorem Derives.passes (h : Derives k ts) (isFirst : Bool) (brackets : List Bracket) :
    Passes ⟨k.within brackets, k.front isFirst⟩ ts (behind (k.within brackets)) := by
  induction h generalizing isFirst brackets with
  | @scalar t h =>
    cases t with
    | null | boolean b | number n | string ps => cases isFirst <;> exact .last rfl
    | _ => cases h
  | emptyArray => cases isFirst <;> exact .step rfl (.last rfl)
  | array _ ih =>
    -- The elements stand inside one bracket more, which the last token closes.
    have hinside := (ih true brackets).append (.last (t := .closeBracket) rfl)
    cases isFirst <;> exact .step rfl hinside
  | emptyObject => cases isFirst <;> exact .step rfl (.last rfl)
  | object _ ih =>
    have hinside := (ih true brackets).append (.last (t := .closeBrace) rfl)
    cases isFirst <;> exact .step rfl hinside
  | lastElement _ ih => exact ih isFirst (.array :: brackets)
  | element _ _ ih ihmore =>
    exact (ih isFirst (.array :: brackets)).append (.step rfl (ihmore false brackets))
  | lastMember _ ih =>
    have hvalue := Passes.step (n := ⟨.object :: brackets, .colon⟩) (t := .colon) rfl
      (ih false (.object :: brackets))
    cases isFirst <;> exact .step rfl hvalue
  | member _ _ ih ihmore =>
    have hmore := Passes.step (n := ⟨.object :: brackets, .commaOrEnd⟩) (t := .comma) rfl
      (ihmore false brackets)
    have hvalue := Passes.step (n := ⟨.object :: brackets, .colon⟩) (t := .colon) rfl
      ((ih false (.object :: brackets)).append hmore)
    cases isFirst <;> exact .step rfl hvalue

end ExponentialHistogram.Json
