import Foldmark.Json.Reader
import Foldmark.Proofs.Json.Lexing

/-!
# Values of written data

Reading the text of a datum gives the value that mirrors it (`parse?_write`), for any spacing of
blanks. The run over the tokens of a datum ends where the value of the datum is pushed, with every
list and record that was open before still open.
-/
namespace Foldmark.Json

mutual

/-- The value that a datum is read as. -/
def valueOf : Datum → Value
  | .flag value => .flag value
  | .natural value => .number (numeralOf value)
  | .real _ => .null
  | .text value => .text (some value)
  | .list items => .list (itemValues items)
  | .record fields => .record (fieldValues fields)

def itemValues : List Datum → List Value
  | [] => []
  | item :: items => valueOf item :: itemValues items

def fieldValues : List (String × Datum) → List (Option String × Value)
  | [] => []
  | (key, value) :: fields => (some key, valueOf value) :: fieldValues fields

end

lemma itemValues_eq_map (items : List Datum) : itemValues items = items.map valueOf := by
  induction items with
  | nil => rfl
  | cons item items ih => rw [itemValues, ih, List.map_cons]

lemma fieldValues_eq_map (fields : List (String × Datum)) :
    fieldValues fields = fields.map fun field => (some field.1, valueOf field.2) := by
  induction fields with
  | nil => rfl
  | cons field fields ih => rw [fieldValues, ih, List.map_cons]

namespace Reading

lemma run?_append {reading next last : Reading} {a b : List Token}
    (ha : run? reading a = some next) (hb : run? next b = some last) :
    run? reading (a ++ b) = some last := by
  induction a generalizing reading with
  | nil =>
    rw [run?, Option.some_inj] at ha
    rwa [List.nil_append, ha]
  | cons token a ih =>
    rw [run?] at ha
    obtain ⟨middle, hstep, hrun⟩ := Option.bind_eq_some_iff.mp ha
    rw [List.cons_append, run?, hstep]
    exact ih hrun

lemma run?_cons {reading next last : Reading} {token : Token} {tokens : List Token}
    (hstep : reading.step? token = some next) (hrun : run? next tokens = some last) :
    run? reading (token :: tokens) = some last := by
  rw [run?, hstep]
  exact hrun

/-- A value may come next. -/
def Awaits (reading : Reading) : Prop :=
  reading.next = .value ∨ reading.next = .firstItem

/-- Where a value may come, every token but the end of a list begins one. -/
lemma step?_of_awaits {reading : Reading} (h : reading.Awaits) (token : Token)
    (htoken : token ≠ .closeList) : reading.step? token = reading.beginValue? token := by
  unfold step?
  rcases h with h | h
  · simp only [h]
  · simp only [h]

/-- What came before does not matter to a finished value. -/
lemma push_eq (reading : Reading) (value : Value) :
    reading.push value = push ⟨reading.stack, .more, reading.result⟩ value := by
  obtain ⟨_ | ⟨_ | _, _⟩, _, _⟩ := reading <;> rfl

/-- A key and its colon, in a record that waits for them. -/
lemma run?_key {next : Next} (hnext : next = .key ∨ next = .firstKey) {key : String}
    {done : List (Option String × Value)} {stack : List Frame} {result : Option Value}
    {tokens : List Token} {last : Reading}
    (h : run? ⟨.record done (some key) :: stack, .value, result⟩ tokens = some last) :
    run? ⟨.record done none :: stack, next, result⟩ (.text (some key) :: .colon :: tokens) =
      some last := by
  rcases hnext with rfl | rfl
  · exact run?_cons rfl (run?_cons rfl h)
  · exact run?_cons rfl (run?_cons rfl h)

mutual

/-- The tokens of a datum push its value. -/
theorem run?_tokensOf (datum : Datum) (h : datum.Exact) (reading : Reading)
    (hawaits : reading.Awaits) :
    run? reading (tokensOf datum) = some (reading.push (valueOf datum)) := by
  match datum, h with
  | .flag value, _ => exact run?_cons (step?_of_awaits hawaits _ (by simp)) rfl
  | .natural value, _ => exact run?_cons (step?_of_awaits hawaits _ (by simp)) rfl
  | .text value, _ => exact run?_cons (step?_of_awaits hawaits _ (by simp)) rfl
  | .list [], _ => exact run?_cons (step?_of_awaits hawaits _ (by simp)) rfl
  | .list (item :: items), h =>
    have hopen := step?_of_awaits hawaits .openList (by simp)
    have hitem := run?_tokensOf item h.1
      ⟨.list [] :: reading.stack, .firstItem, reading.result⟩ (.inr rfl)
    have hitems := run?_itemTokens items h.2 [valueOf item] reading.stack reading.result
    rw [push_eq, tokensOf, List.append_assoc]
    exact run?_cons hopen (run?_append hitem hitems)
  | .record [], _ => exact run?_cons (step?_of_awaits hawaits _ (by simp)) rfl
  | .record ((key, value) :: fields), h =>
    have hopen := step?_of_awaits hawaits .openRecord (by simp)
    have hvalue := run?_tokensOf value h.1
      ⟨.record [] (some key) :: reading.stack, .value, reading.result⟩ (.inl rfl)
    have hfields :=
      run?_fieldTokens fields h.2 [(some key, valueOf value)] reading.stack reading.result
    rw [push_eq, tokensOf, List.append_assoc]
    exact run?_cons hopen (run?_key (.inr rfl) (run?_append hvalue hfields))

/-- The items of an open list after those that are done, and its end. -/
theorem run?_itemTokens (items : List Datum) (h : Datum.ExactItems items) (done : List Value)
    (stack : List Frame) (result : Option Value) :
    run? ⟨.list done :: stack, .more, result⟩ (itemTokens items ++ [.closeList]) =
      some (push ⟨stack, .more, result⟩ (.list (done.reverse ++ itemValues items))) := by
  match items, h with
  | [], _ => rw [itemValues, List.append_nil]; rfl
  | item :: items, h =>
    have hitem := run?_tokensOf item h.1 ⟨.list done :: stack, .value, result⟩ (.inl rfl)
    have hitems := run?_itemTokens items h.2 (valueOf item :: done) stack result
    rw [List.reverse_cons, List.append_assoc] at hitems
    rw [itemTokens, List.append_assoc]
    exact run?_cons rfl (run?_append hitem hitems)

/-- The fields of an open record after those that are done, and its end. -/
theorem run?_fieldTokens (fields : List (String × Datum)) (h : Datum.ExactFields fields)
    (done : List (Option String × Value)) (stack : List Frame) (result : Option Value) :
    run? ⟨.record done none :: stack, .more, result⟩ (fieldTokens fields ++ [.closeRecord]) =
      some (push ⟨stack, .more, result⟩ (.record (done.reverse ++ fieldValues fields))) := by
  match fields, h with
  | [], _ => rw [fieldValues, List.append_nil]; rfl
  | (key, value) :: fields, h =>
    have hvalue := run?_tokensOf value h.1
      ⟨.record done (some key) :: stack, .value, result⟩ (.inl rfl)
    have hfields := run?_fieldTokens fields h.2 ((some key, valueOf value) :: done) stack result
    rw [List.reverse_cons, List.append_assoc] at hfields
    rw [fieldTokens, List.append_assoc]
    exact run?_cons rfl (run?_key (.inl rfl) (run?_append hvalue hfields))

end

end Reading

/-- Reading the text of a datum gives its value, however the text is spread with blanks. -/
theorem parse?_write {spacing : Spacing} (hb : spacing.IsBlank) (depth : Nat) {datum : Datum}
    (h : datum.Exact) : parse? (write spacing depth datum) = some (valueOf datum) := by
  have hrun : Reading.run? {} (tokensOf datum) = some (Reading.push {} (valueOf datum)) :=
    Reading.run?_tokensOf datum h {} (.inl rfl)
  rw [parse?, tokens?_write hb depth datum h, Option.bind_some, ofTokens?, hrun]
  rfl

lemma parse?_compact {datum : Datum} (h : datum.Exact) :
    parse? (compact datum).toList = some (valueOf datum) := by
  rw [compact, String.toList_ofList]
  exact parse?_write isBlank_compactSpacing 0 h

lemma parse?_pretty {datum : Datum} (h : datum.Exact) :
    parse? (pretty datum).toList = some (valueOf datum) := by
  rw [pretty, String.toList_ofList]
  exact parse?_write isBlank_prettySpacing 0 h

end Foldmark.Json
