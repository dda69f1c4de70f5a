import RuleMatching.Proofs.Value.Json
import RuleMatching.Rule.Document

set_option autoImplicit false

/-! # The values of documents

A document stands for at most one value (`Json.Denotes`), and no array or object stands for any. The
fields of an event are read by cases on the document, the literals of a rule by trying one variant
of a value after the other. **Both readings give the value that the document stands for and refuse
the documents that stand for none** (`Document.valueWith?_ofJson`), so a literal and a field that
are written alike hold the same value (`Clause.ofDocument?_literal`). -/

namespace RuleMatching

/-- The value that a document stands for. Strings are strings whatever they look like. -/
inductive Json.Denotes : Json → Value → Prop
  | null : Denotes .null .null
  | boolean (b : Bool) : Denotes (.boolean b) (.boolean b)
  | integer (n : Int64) : Denotes (.integer n.toInt) (.integer n)
  /-- An integer beyond 64 bits with sign is the nearest float. -/
  | wide {n : Int} (h : ∀ k : Int64, k.toInt ≠ n) : Denotes (.integer n) (.float (Binary64.ofInt n))
  | float (x : Binary64) : Denotes (.number (.float x)) (.float x)
  | string (s : String) : Denotes (.string s) (.string s)

namespace Value

theorem ofNumber_of_wide {n : Int} (h : ∀ k : Int64, k.toInt ≠ n) :
    ofNumber (.integer n) = float (Binary64.ofInt n) := by
  have hfits : ¬ fitsInt64 n = true := by
    rw [fitsInt64_iff]
    exact fun ⟨k, hk⟩ => h k hk
  rw [ofNumber, if_neg hfits]

theorem denotes_ofNumber (n : Json.Number) : (Json.number n).Denotes (ofNumber n) := by
  cases n with
  | float x => exact .float x
  | integer n =>
      by_cases h : ∃ k : Int64, k.toInt = n
      · obtain ⟨k, rfl⟩ := h
        rw [ofNumber_toInt]
        exact .integer k
      · have hwide : ∀ k : Int64, k.toInt ≠ n := fun k hk => h ⟨k, hk⟩
        rw [ofNumber_of_wide hwide]
        exact .wide hwide

/-- **A field of an event is read as what its document stands for.** -/
theorem ofJson_eq_ok_iff (doc : Json) (v : Value) : ofJson doc = .ok v ↔ doc.Denotes v := by
  constructor
  · intro h
    cases doc with
    | null => exact Except.ok.inj h ▸ .null
    | boolean b => exact Except.ok.inj h ▸ .boolean b
    | number n => exact Except.ok.inj h ▸ denotes_ofNumber n
    | string s => exact Except.ok.inj h ▸ .string s
    | array _ | object _ => cases h
  · intro h
    cases h with
    | integer n => exact congrArg Except.ok (ofNumber_toInt n)
    | wide h => exact congrArg Except.ok (ofNumber_of_wide h)
    | null | boolean _ | float _ | string _ => rfl

/-- The documents that stand for a value are those that are not nested. -/
theorem exists_denotes_iff (doc : Json) : (∃ v, doc.Denotes v) ↔ ¬ doc.IsNested := by
  rcases ofJson_cases doc with ⟨v, hv, hdoc⟩ | ⟨hdoc, herror⟩
  · exact ⟨fun _ => hdoc, fun _ => ⟨v, (ofJson_eq_ok_iff doc v).mp hv⟩⟩
  · constructor
    · rintro ⟨v, hv⟩
      rw [← ofJson_eq_ok_iff, herror] at hv
      cases hv
    · intro h
      exact absurd hdoc h

end Value

namespace Document

/-! ## Trying the variants -/

theorem integer?_ofNumber (n : Int) : (ofNumber (.integer n)).integer? = some n := by
  show (if n < 0 then negative n.natAbs else natural n.natAbs).integer? = some n
  by_cases hn : n < 0
  · rw [if_pos hn]
    exact congrArg some (by omega)
  · rw [if_neg hn]
    exact congrArg some (by omega)

theorem nullValue?_of_integer? {doc : Document} {n : Int} (h : doc.integer? = some n) :
    doc.nullValue? = none := by
  cases doc <;> first | rfl | cases h

theorem booleanValue?_of_integer? {doc : Document} {n : Int} (h : doc.integer? = some n) :
    doc.booleanValue? = none := by
  cases doc <;> first | rfl | cases h

theorem floatValue?_of_integer? {doc : Document} {n : Int} (h : doc.integer? = some n) :
    doc.floatValue? = some (.float (Binary64.ofInt n)) := by
  cases doc with
  | natural _ | negative _ => exact Option.some.inj h ▸ rfl
  | _ => cases h

/-- A number without a fraction is taken as an integer if it fits in 64 bits, and
else as a float. -/
theorem valueWith?_of_integer? {doc : Document} {n : Int} (h : doc.integer? = some n)
    (readDate? : String → Option Instant) :
    doc.valueWith? readDate? = some (Value.ofNumber (.integer n)) := by
  have hinteger : doc.integerValue? =
      if Value.fitsInt64 n then some (.integer (Int64.ofInt n)) else none := by
    rw [integerValue?, h]
    rfl
  simp only [valueWith?, valueVariants, List.findSome?_cons, nullValue?_of_integer? h,
    booleanValue?_of_integer? h, hinteger, floatValue?_of_integer? h, Value.ofNumber]
  cases Value.fitsInt64 n <;> rfl

/-- **Trying the variants of a value and reading by cases agree**, however dates are read: what is
read is what the document stands for, and the nested documents are refused. -/
theorem valueWith?_ofJson (readDate? : String → Option Instant) (doc : Json) :
    (ofJson doc).valueWith? readDate? = (Value.ofJson doc).toOption ∧
      (∀ v, Value.ofJson doc = .ok v ↔ doc.Denotes v) ∧
      ((∃ v, doc.Denotes v) ↔ ¬ doc.IsNested) := by
  refine ⟨?_, Value.ofJson_eq_ok_iff doc, Value.exists_denotes_iff doc⟩
  cases doc with
  | number n =>
      cases n with
      | integer n => exact valueWith?_of_integer? (integer?_ofNumber n) readDate?
      | float x => rfl
  | null | boolean _ | string _ | array _ | object _ => rfl

/-- A timestamp stays a string. -/
example :
    (ofJson (.string "2024-03-01T12:00:00Z")).value? = some (.string "2024-03-01T12:00:00Z") := rfl

/-! ## Settled documents -/

mutual

/-- The document of a JSON document has no plain scalars, so nothing is left to resolve. -/
theorem resolve?_ofJson (doc : Json) : (ofJson doc).resolve? = some (ofJson doc) := by
  cases doc with
  | null | boolean _ | string _ => rfl
  | number n =>
      cases n with
      | float x => rfl
      | integer n =>
          show (if n < 0 then negative n.natAbs else natural n.natAbs).resolve? =
            some (if n < 0 then negative n.natAbs else natural n.natAbs)
          split_ifs <;> rfl
  | array items => simp only [ofJson, resolve?, resolveItems?_ofItems items, Option.map_some]
  | object members =>
      simp only [ofJson, resolve?, resolveMembers?_ofMembers members, Option.map_some]

theorem resolveItems?_ofItems (items : List Json) :
    resolveItems? (ofItems items) = some (ofItems items) := by
  cases items with
  | nil => rfl
  | cons item rest =>
      simp only [ofItems, resolveItems?, resolve?_ofJson item, resolveItems?_ofItems rest]
      rfl

theorem resolveMembers?_ofMembers (members : List (String × Json)) :
    resolveMembers? (ofMembers members) = some (ofMembers members) := by
  cases members with
  | nil => rfl
  | cons member rest =>
      simp only [ofMembers, resolveMembers?, resolve?, resolve?_ofJson member.2,
        resolveMembers?_ofMembers rest]
      rfl

end

end Document

theorem Operator.ofName?_symbol (op : Operator) : Operator.ofName? op.symbol = some op := by
  cases op <;> decide

/-- **A literal of a rule holds the value that a field of an event would hold**, and is refused
where the field would be. -/
theorem Clause.ofDocument?_literal (field : String) (op : Operator) (doc : Json) :
    Clause.ofDocument? (.ofJson (.object [("kind", .string "literal"), ("field", .string field),
      ("operator", .string op.symbol), ("value", doc)])) =
        (Value.ofJson doc).toOption.map (Clause.literal field op) := by
  have htag :
      Document.tagged? "kind"
      (.ofJson (.object [("kind", .string "literal"), ("field", .string field),
      ("operator", .string op.symbol), ("value", doc)])) =
        some ("literal",
          .mapping [(.string "field", .string field), (.string "operator", .string op.symbol),
          (.string "value", .ofJson doc)]) := by
    simp [Document.ofJson, Document.ofMembers, Document.tagged?]
  have hrecord :
      Document.record? true ["field", "operator",
      "value"] (.mapping [(.string "field", .string field), (.string "operator", .string op.symbol),
      (.string "value", .ofJson doc)]) =
        some [("value", .ofJson doc), ("operator", .string op.symbol),
          ("field", .string field)] := by
    simp [Document.record?, Document.members?, Document.recordMembers?, Document.fieldName?]
  have hvalue : (Document.ofJson doc).value? = (Value.ofJson doc).toOption :=
    (Document.valueWith?_ofJson Instant.ofTimestamp? doc).1
  simp [Clause.ofDocument?, Document.resolve?_ofJson, htag, hrecord, Document.Fields.required,
    List.lookup_cons, Document.string?, Operator.ofDocument?, Operator.ofName?_symbol, hvalue,
    Option.map_eq_bind]

end RuleMatching
