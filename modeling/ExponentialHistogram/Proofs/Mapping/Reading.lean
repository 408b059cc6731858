/-
ExponentialHistogram.Proofs.Mapping.Reading — configurations in any layout.

A text describes a configuration if it spells, with blanks anywhere, an object or
an array that does (`Configuration.Describes`). The members of the object are
fields of the configuration, none of them twice, and members of other names with
values of any shape, in any order. The array holds the fields in their own order.
What is left out has its default. Every such text is read as the configuration
(`Configuration.read_of_describes`), and the one that is written is among them
(`Configuration.describes_text`).

The reader holds a draft. Between two members the draft is the configuration as far
as its fields have been seen (`Configuration.restrict`), whichever these are. A member of
another name leaves it as it was.
-/
import Mathlib
import ExponentialHistogram.Mapping.Reader
import ExponentialHistogram.Proofs.Json.Grammar
import ExponentialHistogram.Proofs.Json.Integer
import ExponentialHistogram.Proofs.Loop

namespace ExponentialHistogram

open Json (Token Piece Nesting Numeral Derives StandFor SpelledOut Passage)

namespace Configuration

/-! ## Descriptions -/

/-- The string is the name of a field's variant. The scale has none. -/
def Names (c : Configuration) : Field → List Piece → Prop
  | .scale, _ => False
  | .strategy, ps => StandFor ps c.strategy.name.toList
  | .boundary, ps => StandFor ps c.convention.name.toList

/-- The tokens are the value of a field. A variant stands for itself or is the name of the only
member of an object. -/
inductive Gives (c : Configuration) : Field → List Token → Prop where
  | scale : Gives c .scale [.number (.ofInt c.scale)]
  | variant {f : Field} {ps : List Piece} (h : c.Names f ps) : Gives c f [.string ps]
  | variantMember {f : Field} {ps : List Piece} (h : c.Names f ps) :
    Gives c f [.openBrace, .string ps, .colon, .null, .closeBrace]

/-- What a field is if it is left out. The scale must not be. -/
def HasDefault (c : Configuration) : Field → Prop
  | .scale => False
  | .strategy => c.strategy = .lookupTable
  | .boundary => c.convention = .lowerInclusive

/-- A member with the value of a field, or one with another name. -/
inductive Member (c : Configuration) : Option Field → List Token → Prop where
  | field {f : Field} {key : List Piece} {v : List Token} (hkey : StandFor key f.name.toList)
    (h : c.Gives f v) : Member c (some f) (.string key :: .colon :: v)
  | unknown {key : List Piece} {name : List Char} {v : List Token} (hkey : StandFor key name)
    (hname : ∀ f : Field, name ≠ f.name.toList) (h : Derives .value v) :
    Member c none (.string key :: .colon :: v)

/-- Members with commas between them. -/
inductive Members (c : Configuration) : List (Option Field) → List Token → Prop where
  | last {f : Option Field} {ts : List Token} (h : Member c f ts) : Members c [f] ts
  | more {f : Option Field} {fs : List (Option Field)} {ts us : List Token} (h : Member c f ts)
    (hmore : Members c fs us) : Members c (f :: fs) (ts ++ .comma :: us)

/-- Members that name no field twice, and leave out none that is not as it is by default. -/
inductive IsObject (c : Configuration) : List Token → Prop where
  | intro {fs : List (Option Field)} {ts : List Token} (h : Members c fs ts)
    (honce : fs.reduceOption.Nodup) (homitted : ∀ f, some f ∉ fs → c.HasDefault f) :
    IsObject c (.openBrace :: (ts ++ [.closeBrace]))

/-- The fields one after the other. Those at the end may be left out. -/
inductive IsArray (c : Configuration) : List Token → Prop where
  | one {ts : List Token} (h : c.Gives .scale ts) (hstrategy : c.HasDefault .strategy)
    (hboundary : c.HasDefault .boundary) : IsArray c (.openBracket :: (ts ++ [.closeBracket]))
  | two {ts us : List Token} (h : c.Gives .scale ts) (h' : c.Gives .strategy us)
    (hboundary : c.HasDefault .boundary) :
    IsArray c (.openBracket :: (ts ++ .comma :: us ++ [.closeBracket]))
  | three {ts us vs : List Token} (h : c.Gives .scale ts) (h' : c.Gives .strategy us)
    (h'' : c.Gives .boundary vs) :
    IsArray c (.openBracket :: (ts ++ .comma :: (us ++ .comma :: vs) ++ [.closeBracket]))

/-- The text is an object or an array for the configuration. -/
def Describes (text : List Char) (c : Configuration) : Prop :=
  ∃ ts, SpelledOut ts text ∧ (c.IsObject ts ∨ c.IsArray ts)

/-- The scale takes 32 bits. -/
def Fits (c : Configuration) : Prop := -2 ^ 31 ≤ c.scale ∧ c.scale < 2 ^ 31

variable {c : Configuration} {f : Field} {ts us : List Token}

/-! ## Scanning -/

theorem Gives.derives (h : c.Gives f ts) : Derives .value ts := by
  cases h with
  | scale => exact .scalar (t := .number _) trivial
  | variant _ => exact .scalar (t := .string _) trivial
  | variantMember _ => exact .object (.lastMember (.scalar (t := .null) trivial))

theorem Members.derives {fs : List (Option Field)} (h : c.Members fs ts) : Derives .members ts := by
  induction h with
  | last h =>
    cases h with
    | field _ h => exact .lastMember h.derives
    | unknown _ _ h => exact .lastMember h
  | more h _ ih =>
    cases h with
    | field _ h => exact .member h.derives ih
    | unknown _ _ h => exact .member h ih

theorem IsObject.derives (h : c.IsObject ts) : Derives .value ts := by
  obtain ⟨h, -, -⟩ := h
  exact .object h.derives

theorem IsArray.derives (h : c.IsArray ts) : Derives .value ts := by
  cases h with
  | one h _ _ => exact .array (.lastElement h.derives)
  | two h h' _ => exact .array (.element h.derives (.lastElement h'.derives))
  | three h h' h'' =>
    exact .array (.element h.derives (.element h'.derives (.lastElement h''.derives)))

/-! ## Fields -/

/-- The configuration as far as its fields have been seen. -/
def restrict (c : Configuration) (seen : List Field) : Draft where
  scale := if .scale ∈ seen then some c.scale else none
  strategy := if .strategy ∈ seen then some c.strategy else none
  convention := if .boundary ∈ seen then some c.convention else none

variable {seen : List Field} {ps : List Piece}

theorem holds_restrict (hnew : f ∉ seen) : (c.restrict seen).holds f = false := by
  cases f <;> simp [Draft.holds, restrict, hnew]

/-- **The draft is complete** when only defaults have not been seen. -/
theorem complete_restrict (homitted : ∀ f, f ∉ seen → c.HasDefault f) :
    (c.restrict seen).complete = .ok c := by
  have hscale : .scale ∈ seen := by_contra (homitted .scale)
  have hstrategy : (c.restrict seen).strategy.getD .lookupTable = c.strategy := by
    by_cases hmem : .strategy ∈ seen
    · simp [restrict, hmem]
    · simpa [restrict, hmem] using (homitted .strategy hmem).symm
  have hconvention : (c.restrict seen).convention.getD .lowerInclusive = c.convention := by
    by_cases hmem : .boundary ∈ seen
    · simp [restrict, hmem]
    · simpa [restrict, hmem] using (homitted .boundary hmem).symm
  rw [Draft.complete, hstrategy, hconvention]
  simp [restrict, hscale]

theorem setScale_restrict (hfits : c.Fits) (seen : List Field) :
    (c.restrict seen).setScale (.number (.ofInt c.scale)) = .ok (c.restrict (.scale :: seen)) := by
  have hrange : -2 ^ 31 ≤ c.scale ∧ c.scale < 2 ^ 31 := hfits
  have hvalue : (Numeral.ofInt c.scale).value? = some (.integer c.scale) :=
    Json.value?_ofInt (by omega) (by omega)
  rw [Draft.setScale, hvalue]
  simp only
  rw [if_pos hrange]
  simp [restrict]

theorem readText_eq {s : List Char} (h : StandFor ps s) : Reader.readText ps = .ok s := by
  rw [Reader.readText, h.decode?]

/-- The name of a variant is read, and the variant set. -/
theorem Names.setVariant (h : c.Names f ps) (seen : List Field) : ∃ s, Reader.readText ps = .ok s ∧
    (c.restrict seen).setVariant f s = .ok (c.restrict (f :: seen)) := by
  cases f with
  | scale => cases h
  | strategy =>
    refine ⟨_, readText_eq h, ?_⟩
    rw [Draft.setVariant]
    cases hstrategy : c.strategy <;> simp [restrict, hstrategy, Strategy.name]
  | boundary =>
    refine ⟨_, readText_eq h, ?_⟩
    rw [Draft.setVariant]
    cases hconvention : c.convention <;> simp [restrict, hconvention, Convention.name]

theorem Names.step (h : c.Names f ps) (l : Layout) (seen : List Field) :
    Reader.step (.value l (c.restrict seen) f) (.string ps)
      = .ok (.commaOrEnd l (c.restrict (f :: seen)) f) := by
  obtain ⟨s, hread, hset⟩ := h.setVariant seen
  cases f with
  | scale => cases h
  | strategy | boundary => exact (bind_eq_of_eq_ok hread _).trans (bind_eq_of_eq_ok hset _)

theorem Names.step_member (h : c.Names f ps) (l : Layout) (seen : List Field) :
    Reader.step (.variant l (c.restrict seen) f) (.string ps)
      = .ok (.variantColon l (c.restrict (f :: seen)) f) := by
  obtain ⟨s, hread, hset⟩ := h.setVariant seen
  exact (bind_eq_of_eq_ok hread _).trans (bind_eq_of_eq_ok hset _)

/-- **The value of a field** is taken into the draft. -/
theorem Gives.foldlM (h : c.Gives f ts) (hfits : c.Fits) (l : Layout) (seen : List Field) :
    ts.foldlM Reader.step (.value l (c.restrict seen) f)
      = .ok (.commaOrEnd l (c.restrict (f :: seen)) f) := by
  cases h with
  | scale =>
    have hstep : Reader.step (.value l (c.restrict seen) .scale) (.number (.ofInt c.scale))
        = .ok (.commaOrEnd l (c.restrict (.scale :: seen)) .scale) :=
      bind_eq_of_eq_ok (setScale_restrict hfits seen) _
    exact foldlM_cons_of_ok hstep
  | variant h => exact foldlM_cons_of_ok (h.step l seen)
  | variantMember h =>
    have hopen : Reader.step (.value l (c.restrict seen) f) .openBrace
        = .ok (.variant l (c.restrict seen) f) := by
      cases f with
      | scale => cases h
      | strategy | boundary => rfl
    rw [foldlM_cons_of_ok hopen, foldlM_cons_of_ok (h.step_member l seen)]
    rfl

/-- The scale of an array is read like any other value, since no array is empty. -/
theorem Gives.foldlM_first (h : c.Gives .scale ts) (hfits : c.Fits) :
    (ts ++ us).foldlM Reader.step .firstElement
      = us.foldlM Reader.step (.commaOrEnd .array (c.restrict [.scale]) .scale) := by
  cases h with
  | scale => exact foldlM_append_of_ok (Gives.scale.foldlM hfits .array [])
  | variant h | variantMember h => cases h

/-! ## Members -/

theorem readMember_field {key : List Piece} (hkey : StandFor key f.name.toList) (hnew : f ∉ seen) :
    Reader.readMember (c.restrict seen) key = .ok (.colon (c.restrict seen) (some f)) := by
  have hfind :
      [Field.scale, .strategy, .boundary].find? (·.name.toList == f.name.toList) = some f := by
    cases f <;> decide
  refine (bind_eq_of_eq_ok (readText_eq hkey) _).trans ?_
  rw [hfind]
  simp only [holds_restrict hnew, Bool.false_eq_true, if_false]
  rfl

theorem readMember_unknown {key : List Piece} {name : List Char} (hkey : StandFor key name)
    (hname : ∀ f : Field, name ≠ f.name.toList) (d : Draft) :
    Reader.readMember d key = .ok (.colon d none) := by
  have hfind : [Field.scale, .strategy, .boundary].find? (·.name.toList == name) = none := by
    refine List.find?_eq_none.mpr fun f _ heq => hname f ?_
    exact (eq_of_beq heq).symm
  refine (bind_eq_of_eq_ok (readText_eq hkey) _).trans ?_
  rw [hfind]
  rfl

/-- **A value of another name** is passed over to its end, and the draft stays as it is. -/
theorem foldlM_unknown {n : Nesting} (h : n.Passes ts .finished) (d : Draft) :
    ts.foldlM Reader.step (.unknown d n) = .ok (.commaOrEnd .object d .boundary) := by
  generalize hp : Passage.finished = p at h
  induction h with
  | @last n t _ hpass =>
    have hstep : Reader.step (.unknown d n) t = .ok (.commaOrEnd .object d .boundary) := by
      rw [Reader.step, hpass, ← hp]
    exact foldlM_cons_of_ok hstep
  | @step n n' t _ _ hpass _ ih =>
    have hstep : Reader.step (.unknown d n) t = .ok (.unknown d n') := by
      rw [Reader.step, hpass]
    exact (foldlM_cons_of_ok hstep).trans (ih hp)

/-- One member more. -/
theorem Member.foldlM {f : Option Field} (h : c.Member f ts) (hfits : c.Fits)
    (hnew : ∀ g ∈ f, g ∉ seen) (isFirst : Bool) :
    ∃ last, ts.foldlM Reader.step (.member (c.restrict seen) isFirst)
      = .ok (.commaOrEnd .object (c.restrict (f.toList ++ seen)) last) := by
  cases h with
  | @field f key v hkey h =>
    refine ⟨f, ?_⟩
    have hmember : Reader.step (.member (c.restrict seen) isFirst) (.string key)
        = .ok (.colon (c.restrict seen) (some f)) := readMember_field hkey (hnew f rfl)
    have hcolon : Reader.step (.colon (c.restrict seen) (some f)) .colon
        = .ok (.value .object (c.restrict seen) f) := rfl
    rw [foldlM_cons_of_ok hmember, foldlM_cons_of_ok hcolon]
    exact h.foldlM hfits .object seen
  | @unknown key name v hkey hname h =>
    refine ⟨.boundary, ?_⟩
    have hmember : Reader.step (.member (c.restrict seen) isFirst) (.string key)
        = .ok (.colon (c.restrict seen) none) := readMember_unknown hkey hname _
    have hcolon : Reader.step (.colon (c.restrict seen) none) .colon
        = .ok (.unknown (c.restrict seen) .front) := rfl
    rw [foldlM_cons_of_ok hmember, foldlM_cons_of_ok hcolon]
    exact foldlM_unknown (h.passes false []) _

/-- A run over members that name no field twice. -/
theorem Members.foldlM {fs : List (Option Field)} (h : c.Members fs ts) (hfits : c.Fits)
    (hnew : (fs.reduceOption ++ seen).Nodup) (isFirst : Bool) :
    ∃ last seen', ts.foldlM Reader.step (.member (c.restrict seen) isFirst)
      = .ok (.commaOrEnd .object (c.restrict seen') last) ∧
      ∀ f, f ∈ seen' ↔ some f ∈ fs ∨ f ∈ seen := by
  induction h generalizing seen isFirst with
  | @last f ts h =>
    have hnew' : ∀ g ∈ f, g ∉ seen := by
      rintro g rfl hmem
      exact (List.nodup_cons.mp hnew).1 hmem
    obtain ⟨last, hfold⟩ := h.foldlM hfits hnew' isFirst
    refine ⟨last, _, hfold, fun g => ?_⟩
    cases f <;> simp [eq_comm]
  | @more f fs ts us h _ ih =>
    have hnew' : ∀ g ∈ f, g ∉ seen := by
      rintro g rfl hmem
      exact (List.nodup_cons.mp hnew).1 (List.mem_append_right _ hmem)
    have hrest : (fs.reduceOption ++ (f.toList ++ seen)).Nodup := by
      cases f with
      | none => exact hnew
      | some g => exact List.nodup_middle.mpr hnew
    obtain ⟨last, hfold⟩ := h.foldlM hfits hnew' isFirst
    obtain ⟨last', seen', hfold', hseen⟩ := ih hrest false
    refine ⟨last', seen', ?_, fun g => ?_⟩
    · have hcomma : Reader.step (.commaOrEnd .object (c.restrict (f.toList ++ seen)) last) .comma
          = .ok (.member (c.restrict (f.toList ++ seen)) false) := rfl
      rw [foldlM_append_of_ok hfold, foldlM_cons_of_ok hcomma, hfold']
    · -- A member of another name adds nothing to what has been seen.
      rw [hseen]
      cases f <;> simp [or_left_comm, or_assoc, eq_comm]

/-! ## Whole configurations -/

/-- What closing an object or an array comes to. -/
theorem finish_restrict (homitted : ∀ f, f ∉ seen → c.HasDefault f) :
    Reader.finish (c.restrict seen) = .ok (.finished c) :=
  bind_eq_of_eq_ok (complete_restrict homitted) _

theorem IsObject.foldlM (h : c.IsObject ts) (hfits : c.Fits) :
    ts.foldlM Reader.step .front = .ok (.finished c) := by
  obtain @⟨fs, ts, h, honce, homitted⟩ := h
  have hopen : Reader.step .front .openBrace = .ok (.member (c.restrict []) true) := rfl
  have hnodup : (fs.reduceOption ++ []).Nodup := by rwa [List.append_nil]
  obtain ⟨last, seen, hfold, hseen⟩ := h.foldlM hfits hnodup true
  have hclose : Reader.step (.commaOrEnd .object (c.restrict seen) last) .closeBrace
      = .ok (.finished c) := by
    refine finish_restrict fun f hf => homitted f fun hmem => hf ?_
    exact (hseen f).mpr (Or.inl hmem)
  rw [foldlM_cons_of_ok hopen, foldlM_append_of_ok hfold, foldlM_cons_of_ok hclose]
  rfl

theorem step_closeBracket (homitted : ∀ f, f ∉ seen → c.HasDefault f) (last : Field) :
    Reader.step (.commaOrEnd .array (c.restrict seen) last) .closeBracket = .ok (.finished c) := by
  cases last <;> exact finish_restrict homitted

theorem IsArray.foldlM (h : c.IsArray ts) (hfits : c.Fits) :
    ts.foldlM Reader.step .front = .ok (.finished c) := by
  have hopen : Reader.step .front .openBracket = .ok .firstElement := rfl
  have hcomma : Reader.step (.commaOrEnd .array (c.restrict [.scale]) .scale) .comma
      = .ok (.value .array (c.restrict [.scale]) .strategy) := rfl
  have hcomma' : Reader.step (.commaOrEnd .array (c.restrict [.strategy, .scale]) .strategy) .comma
      = .ok (.value .array (c.restrict [.strategy, .scale]) .boundary) := rfl
  cases h with
  | one h hstrategy hboundary =>
    have homitted : ∀ f, f ∉ [Field.scale] → c.HasDefault f := by
      intro f hf
      cases f <;> simp_all
    rw [foldlM_cons_of_ok hopen, h.foldlM_first hfits,
      foldlM_cons_of_ok (step_closeBracket homitted _)]
    rfl
  | two h h' hboundary =>
    have homitted : ∀ f, f ∉ [Field.strategy, .scale] → c.HasDefault f := by
      intro f hf
      cases f <;> simp_all
    rw [foldlM_cons_of_ok hopen, List.append_assoc, h.foldlM_first hfits, List.cons_append,
      foldlM_cons_of_ok hcomma, foldlM_append_of_ok (h'.foldlM hfits _ _),
      foldlM_cons_of_ok (step_closeBracket homitted _)]
    rfl
  | three h h' h'' =>
    have homitted : ∀ f, f ∉ [Field.boundary, .strategy, .scale] → c.HasDefault f := by
      intro f hf
      cases f <;> simp at hf
    rw [foldlM_cons_of_ok hopen, List.append_assoc, h.foldlM_first hfits, List.cons_append,
      foldlM_cons_of_ok hcomma, List.append_assoc, foldlM_append_of_ok (h'.foldlM hfits _ _),
      List.cons_append, foldlM_cons_of_ok hcomma', foldlM_append_of_ok (h''.foldlM hfits _ _),
      foldlM_cons_of_ok (step_closeBracket homitted _)]
    rfl

/-- **A text that describes a configuration** is read as that configuration. -/
theorem read_of_describes {text : List Char} (h : Describes text c) (hfits : c.Fits) :
    read text = .ok c := by
  obtain ⟨ts, hspelled, hts⟩ := h
  -- Both forms are values of the grammar, which is all that scanning asks for.
  have hscan : Json.scan text = ts :=
    Json.scan_of_spelledOut hspelled (hts.elim (·.derives) (·.derives)).punctuated
  have hfold : ts.foldlM Reader.step .front = .ok (.finished c) :=
    hts.elim (·.foldlM hfits) (·.foldlM hfits)
  rw [read, hscan]
  exact bind_eq_of_eq_ok hfold _

/-! ## The text that is written -/

/-- A text in quotes, as the name of a field or a variant is written. -/
def inQuotes (s : List Char) : List Char := '"' :: (s ++ ['"'])

theorem text_toList (c : Configuration) : c.text.toList =
    ['\x7b'] ++ (inQuotes Field.scale.name.toList ++ ([':'] ++ ((toString c.scale).toList ++
    ([','] ++ (inQuotes Field.strategy.name.toList ++ ([':'] ++ (inQuotes c.strategy.name.toList ++
    ([','] ++ (inQuotes Field.boundary.name.toList ++ ([':'] ++ (inQuotes c.convention.name.toList ++
    (['\x7d'] ++ [])))))))))))) := by
  simp [text, inQuotes, Field.name, String.toList_append]

theorem spells_inQuotes {s : List Char} (h : Json.isPlain s = true) :
    (Token.string (s.map .char)).Spells (inQuotes s) :=
  ⟨s, Json.spellsPieces_char h, rfl⟩

theorem isPlain_fieldName (f : Field) : Json.isPlain f.name.toList = true := by
  cases f <;> decide

theorem isPlain_strategyName (s : Strategy) : Json.isPlain s.name.toList = true := by
  cases s <;> decide

theorem isPlain_conventionName (s : Convention) : Json.isPlain s.name.toList = true := by
  cases s <;> decide

/-- **The text that is written** is one of those that describe the configuration. -/
theorem describes_text (c : Configuration) : Describes c.text.toList c := by
  have hscale : c.Gives .scale [.number (.ofInt c.scale)] := .scale
  have hstrategy : c.Gives .strategy [.string (c.strategy.name.toList.map .char)] :=
    .variant (Json.standFor_char _)
  have hboundary : c.Gives .boundary [.string (c.convention.name.toList.map .char)] :=
    .variant (Json.standFor_char _)
  have hmember {f : Field} {v : List Token} (h : c.Gives f v) :
      c.Member (some f) (.string (f.name.toList.map .char) :: .colon :: v) :=
    .field (Json.standFor_char _) h
  refine ⟨_, ?_, Or.inl (.intro (.more (hmember hscale) (.more (hmember hstrategy)
    (.last (hmember hboundary)))) ?_ ?_)⟩
  · rw [text_toList]
    have hname (f : Field) := spells_inQuotes (isPlain_fieldName f)
    exact .token rfl (.token (hname .scale) (.token rfl (.token (Json.spells_toString c.scale)
      (.token rfl (.token (hname .strategy) (.token rfl (.token
        (spells_inQuotes (isPlain_strategyName _)) (.token rfl (.token (hname .boundary)
          (.token rfl (.token (spells_inQuotes (isPlain_conventionName _))
            (.token rfl .nil))))))))))))
  · decide
  · intro f hf
    cases f <;> simp at hf

/-- **Configurations survive any layout of their text.** What is written is read back, and so is
every other text that describes the configuration. -/
theorem read_describing (c : Configuration) (hfits : c.Fits) :
    read c.text.toList = .ok c ∧ ∀ text, Describes text c → read text = .ok c :=
  ⟨read_of_describes c.describes_text hfits, fun _ h => read_of_describes h hfits⟩

/-- An object with blanks and with a nested value of another name in front of the least scale, the
name of which has an escape. -/
theorem read_describing_nested :
    Fits ⟨-2147483648, .lookupTable, .lowerInclusive⟩ ∧
    Describes "\x7b\"x\":[\x7b\"y\":1.5E+3\x7d],\n\"\\u0073cale\": -2147483648\x7d".toList
      ⟨-2147483648, .lookupTable, .lowerInclusive⟩ ∧
    read "\x7b\"x\":[\x7b\"y\":1.5E+3\x7d],\n\"\\u0073cale\": -2147483648\x7d".toList
      = .ok ⟨-2147483648, .lookupTable, .lowerInclusive⟩ := by
  have hfits : Fits ⟨-2147483648, .lookupTable, .lowerInclusive⟩ := ⟨by decide, by decide⟩
  have hnumber : Numeral.Spells ⟨false, ['1'], ['5'], some (false, ['3'])⟩ "1.5E+3".toList :=
    .intro ⟨by decide, by simp⟩ (by decide) (.digits ⟨by decide, by simp⟩)
      (@Json.SpellsExponent.digits 'E' false ['+'] _ (Or.inr rfl) (by decide)
        ⟨by decide, by simp⟩)
  have hkey : (Token.string (.unit 's'.toNat :: "cale".toList.map .char)).Spells
      "\"\\u0073cale\"".toList :=
    ⟨_, .cons (.unit (by decide)) (Json.spellsPieces_char (by decide)), rfl⟩
  have hnested : Derives .value [.openBracket, .openBrace, .string ("y".toList.map .char), .colon,
      .number ⟨false, ['1'], ['5'], some (false, ['3'])⟩, .closeBrace, .closeBracket] :=
    .array (.lastElement (.object (.lastMember (.scalar (t := .number _) trivial))))
  have hmembers : Members ⟨-2147483648, .lookupTable, .lowerInclusive⟩ [none, some .scale] _ :=
    .more (.unknown (Json.standFor_char "x".toList) (fun f => by cases f <;> decide) hnested)
      (.last (.field (.unit (c := 's') (Json.standFor_char _)) .scale))
  have hobject := IsObject.intro hmembers (by decide) fun f hf => by
    cases f <;> first | rfl | exact absurd (by decide) hf
  refine ⟨hfits, ?describes, (read_describing _ hfits).2 _ ?describes⟩
  refine ⟨_, ?_, Or.inl hobject⟩
  exact .token (t := .openBrace) rfl (.token (spells_inQuotes (by decide))
    (.token (t := .colon) rfl (.token (t := .openBracket) rfl (.token (t := .openBrace) rfl
      (.token (spells_inQuotes (by decide)) (.token (t := .colon) rfl
        (.token (t := .number _) hnumber (.token (t := .closeBrace) rfl
          (.token (t := .closeBracket) rfl (.token (t := .comma) rfl (.blank (c := '\n') rfl
            (.token hkey (.token (t := .colon) rfl (.blank (c := ' ') rfl
              (.token (t := .number _) (Json.spells_toString (-2147483648))
                (.token (t := .closeBrace) rfl .nil))))))))))))))))

end Configuration

end ExponentialHistogram
