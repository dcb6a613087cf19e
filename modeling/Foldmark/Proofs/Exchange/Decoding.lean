import Foldmark.Exchange
import Foldmark.Proofs.Json.Parsing
import Foldmark.Proofs.Path.Spelling
import Foldmark.Report.Format

/-!
# Records read back from their data

Every record is decoded from the value of the data that it is written as. A field that was left out
is found missing and takes its default, and a number is found as long as it fits a counter.
-/
namespace Foldmark

open Json (valueOf)

namespace Json

open Value

/-! ## Parts of records -/

lemma ofDigits_toDigits (n : Nat) :
    Decimal.ofDigits ((Nat.toDigits 10 n).map digitValue) = n := by
  calc Decimal.ofDigits ((Nat.toDigits 10 n).map digitValue)
      = (Nat.toDigits 10 n).foldl (fun sofar c => 10 * sofar + (c.toNat - '0'.toNat)) 0 := by
        rw [Decimal.ofDigits, List.foldl_map]
        simp only [Nat.mul_comm]
        rfl
    _ = Nat.ofDigitChars 10 (Nat.toDigits 10 n) 0 := Nat.ofDigitChars_eq_foldl.symm
    _ = n := Nat.ofDigitChars_ten_toDigits

/-- A number that fits a counter is read as it was. -/
lemma counter?_natural {n : Nat} (h : n < Count.limit) :
    (valueOf (.natural n)).counter? = some n := by
  simp [valueOf, Value.counter?, Decimal.Numeral.counter?, numeralOf, ofDigits_toDigits, h]

/-- Items that are each read back are read back as a list. -/
lemma mapM_map_eq_some {α β : Type} {write : α → β} {read? : β → Option α} {items : List α}
    (h : ∀ item ∈ items, read? (write item) = some item) :
    (items.map write).mapM read? = some items := by
  induction items with
  | nil => rfl
  | cons item items ih =>
    have hrest := ih fun item hitem => h item (List.mem_cons_of_mem _ hitem)
    rw [List.map_cons, List.mapM_cons, h item List.mem_cons_self, hrest]
    rfl

lemma listOf?_list {α : Type} {toDatum : α → Datum} {item? : Value → Option α} {items : List α}
    (h : ∀ item ∈ items, item? (valueOf (toDatum item)) = some item) :
    listOf? item? (valueOf (.list (items.map toDatum))) = some items := by
  rw [valueOf, itemValues_eq_map, listOf?, List.map_map]
  exact mapM_map_eq_some h

lemma lookup_map_valueOf (fields : List (String × Datum)) (key : String) :
    (fields.map fun field => (field.1, valueOf field.2)).lookup key =
      (fields.lookup key).map valueOf := by
  induction fields with
  | nil => rfl
  | cons field fields ih =>
    rw [List.map_cons, List.lookup_cons, List.lookup_cons, ih]
    cases key == field.1 <;> rfl

/-- In an object without repeated keys each key has the value beside it. -/
lemma single?_eq_lookup {members : List (String × Value)} (h : (members.map Prod.fst).Nodup)
    (key : String) : single? members key = some (members.lookup key) := by
  induction members with
  | nil => rfl
  | cons member members ih =>
    obtain ⟨found, value⟩ := member
    obtain ⟨hfound, hrest⟩ := List.nodup_cons.mp h
    by_cases hkey : found = key
    · subst hkey
      have hnone : (members.filter fun member => member.1 == found) = [] := by
        rw [List.filter_eq_nil_iff]
        intro member hmember hsame
        exact hfound (List.mem_map.mpr ⟨member, hmember, by simpa using hsame⟩)
      simp [single?, hnone]
    · have hne : ¬ key = found := fun h => hkey h.symm
      have hskip := ih hrest
      rw [single?] at hskip ⊢
      rw [List.filter_cons_of_neg (by simpa using hkey), hskip, List.lookup_cons,
        beq_eq_false_iff_ne.mpr hne]

/-- The fields of a written record are found by their names; those that it lacks are missing. -/
lemma fields?_record {fields : List (String × Datum)} (h : (fields.map Prod.fst).Nodup)
    (names : List String) :
    (valueOf (.record fields)).fields? names =
      some (names.map fun name => (fields.lookup name).map valueOf) := by
  have hmembers : (valueOf (.record fields)).members? =
      some (fields.map fun field => (field.1, valueOf field.2)) := by
    rw [valueOf, fieldValues_eq_map, members?, List.mapM_map]
    exact List.mapM_pure
  have hnodup : ((fields.map fun field => (field.1, valueOf field.2)).map Prod.fst).Nodup := by
    rwa [List.map_map]
  have hlookup : single? (fields.map fun field => (field.1, valueOf field.2)) =
      fun name => some ((fields.lookup name).map valueOf) := by
    funext name
    rw [single?_eq_lookup hnodup, lookup_map_valueOf]
  change (valueOf (.record fields)).members?.bind _ = _
  rw [hmembers, Option.bind_some, hlookup]
  exact List.mapM_pure

/-! ## Values of fields -/

@[simp] lemma required?_some {α : Type} (value? : Value → Option α) (value : Value) :
    required? value? (some value) = value? value := rfl

@[simp] lemma optional?_some {α : Type} (default : α) (value? : Value → Option α) (value : Value) :
    optional? default value? (some value) = value? value := rfl

@[simp] lemma optional?_none {α : Type} (default : α) (value? : Value → Option α) :
    optional? default value? none = some default := rfl

@[simp] lemma flag?_flag (b : Bool) : (valueOf (.flag b)).flag? = some b := rfl

@[simp] lemma text?_text (s : String) : (valueOf (.text s)).text? = some s := rfl

@[simp] lemma orNull?_text (s : String) : orNull? text? (valueOf (.text s)) = some (some s) := rfl

@[simp] lemma label?_text {α : Type} (labels : List (String × α)) (s : String) :
    label? labels (valueOf (.text s)) = labels.lookup s := rfl

end Json

/-! ## Records -/

open Json

@[simp] lemma MarkerKind.ofJson?_valueOf (kind : MarkerKind) :
    ofJson? (valueOf kind.toDatum) = some kind := by
  cases kind <;> rfl

@[simp] lemma FaultKind.ofJson?_valueOf (kind : FaultKind) :
    ofJson? (valueOf kind.toDatum) = some kind := by
  cases kind <;> rfl

@[simp] lemma Language.ofJson?_valueOf (language : Language) :
    ofJson? (valueOf language.toDatum) = some language := by
  cases language <;> rfl

lemma Marker.ofJson?_valueOf (marker : Marker) (h : marker.line < Count.limit) :
    ofJson? (valueOf marker.toDatum) = some marker := by
  obtain ⟨line, kind, name, fold⟩ := marker
  cases name <;>
    simp [ofJson?, toDatum, Datum.optionalText, fields?_record, List.lookup_cons, List.lookup_nil,
      counter?_natural h]

lemma CommentLine.ofJson?_valueOf (entry : CommentLine) (h : entry.line < Count.limit) :
    ofJson? (valueOf entry.toDatum) = some entry := by
  simp [ofJson?, toDatum, fields?_record, List.lookup_cons, List.lookup_nil, counter?_natural h]

/-- All lines and the level of a region fit counters. -/
structure Region.InRange (region : Region) : Prop where
  startLine : region.startLine < Count.limit
  endLine : region.endLine < Count.limit
  level : region.level < Count.limit

lemma Region.ofJson?_valueOf (region : Region) (h : region.InRange) :
    ofJson? (valueOf region.toDatum) = some region := by
  obtain ⟨hstart, hend, hlevel⟩ := h
  obtain ⟨startLine, endLine, level, name, fold⟩ := region
  cases name <;>
    simp [ofJson?, toDatum, Datum.optionalText, fields?_record, List.lookup_cons, List.lookup_nil,
      counter?_natural hstart, counter?_natural hend, counter?_natural hlevel]

lemma Fault.ofJson?_valueOf (fault : Fault) (h : fault.line < Count.limit) :
    ofJson? (valueOf fault.toDatum) = some fault := by
  simp [ofJson?, toDatum, fields?_record, List.lookup_cons, List.lookup_nil, counter?_natural h]

structure Outline.InRange (outline : Outline) : Prop where
  regions : ∀ region ∈ outline.regions, region.InRange
  faults : ∀ fault ∈ outline.faults, fault.line < Count.limit

lemma Outline.ofJson?_valueOf (outline : Outline) (h : outline.InRange) :
    ofJson? (valueOf outline.toDatum) = some outline := by
  have hregions := listOf?_list fun region hregion =>
    Region.ofJson?_valueOf region (h.regions region hregion)
  have hfaults := listOf?_list fun fault hfault => Fault.ofJson?_valueOf fault (h.faults fault hfault)
  simp [ofJson?, toDatum, fields?_record, List.lookup_cons, List.lookup_nil, hregions, hfaults]

def FoldDirective.InRange : FoldDirective → Prop
  | .startsAt level => level < Count.limit
  | .continues level => level < Count.limit
  | .noFold => True

lemma FoldDirective.ofJson?_record (fields : List (String × Datum)) :
    ofJson? (valueOf (.record fields)) =
      ((valueOf (.record fields)).fields? ["kind", "level"]).bind fun
        | [some kind, level] => ofKind? kind level
        | _ => none := rfl

/-- The level is left out where there is none, and is found missing there. -/
lemma FoldDirective.ofJson?_valueOf (directive : FoldDirective) (h : directive.InRange) :
    ofJson? (valueOf directive.toDatum) = some directive := by
  cases directive with
  | startsAt level =>
    have hlevel := counter?_natural (show level < Count.limit from h)
    simp [toDatum, ofJson?_record, fields?_record, List.lookup_cons, List.lookup_nil, ofKind?,
      hlevel]
  | continues level =>
    have hlevel := counter?_natural (show level < Count.limit from h)
    simp [toDatum, ofJson?_record, fields?_record, List.lookup_cons, List.lookup_nil, ofKind?,
      hlevel]
  | noFold =>
    simp [toDatum, ofJson?_record, fields?_record, List.lookup_cons, List.lookup_nil, ofKind?]

lemma Settings.ofJson?_valueOf (settings : Settings) :
    ofJson? (valueOf settings.toDatum) = some settings := by
  have hwords : ∀ words : List String,
      Value.listOf? Value.text? (valueOf (.list (words.map Datum.text))) = some words := fun words =>
    listOf?_list fun word _ => text?_text word
  simp [ofJson?, toDatum, fields?_record, List.lookup_cons, List.lookup_nil, hwords]

/-- Names that do not repeat find the values beside them, in their order. -/
lemma map_lookup_zip {α : Type} {names : List String} {values : List α} (hnodup : names.Nodup)
    (hlength : names.length = values.length) :
    (names.map fun name => (names.zip values).lookup name) = values.map some := by
  induction names generalizing values with
  | nil => rw [List.length_eq_zero_iff.mp hlength.symm]; rfl
  | cons name names ih =>
    obtain ⟨value, values, rfl⟩ := List.exists_cons_of_length_eq_add_one hlength.symm
    obtain ⟨hname, hrest⟩ := List.nodup_cons.mp hnodup
    have hskip : ∀ other ∈ names,
        ((name, value) :: names.zip values).lookup other = (names.zip values).lookup other := by
      intro other hother
      have hne : other ≠ name := fun h => hname (h ▸ hother)
      rw [List.lookup_cons, beq_eq_false_iff_ne.mpr hne]
    rw [List.zip_cons_cons, List.map_cons, List.map_congr_left hskip,
      ih hrest (by simpa using hlength)]
    simp

lemma Tally.ofJson?_valueOf (tally : Tally) (h : ∀ n ∈ tally.counters, n < Count.limit) :
    ofJson? (valueOf tally.toDatum) = some tally := by
  have hlength : names.length = (tally.counters.map Datum.natural).length := rfl
  have hkeys : (names.zip (tally.counters.map Datum.natural)).map Prod.fst = names :=
    List.map_fst_zip hlength.le
  have hvalues : (names.map fun name =>
      ((names.zip (tally.counters.map Datum.natural)).lookup name).map valueOf) =
        tally.counters.map fun n => some (valueOf (.natural n)) := by
    have hlookup := map_lookup_zip (by decide) hlength
    have hmap := congrArg (List.map (Option.map valueOf)) hlookup
    simpa [List.map_map, Function.comp_def] using hmap
  have hcounters : (tally.counters.map fun n => some (valueOf (.natural n))).mapM
      (Value.required? Value.counter?) = some tally.counters :=
    mapM_map_eq_some fun n hn => counter?_natural (h n hn)
  rw [ofJson?, toDatum, fields?_record (by rw [hkeys]; decide), hvalues]
  change ((tally.counters.map fun n => some (valueOf (.natural n))).mapM
    (Value.required? Value.counter?)).bind _ = _
  rw [hcounters]
  rfl

lemma Path.ofJson?_valueOf {path : Path} {datum : Datum} (h : path.toDatum? = some datum) :
    ofJson? (valueOf datum) = some path := by
  obtain ⟨s, hs, rfl⟩ := Option.map_eq_some_iff.mp h
  rw [ofJson?, text?_text, Option.map_some, ofString_of_text? hs]

structure SourceFile.InRange (file : SourceFile) : Prop where
  outline : file.outline.InRange
  lineCount : file.lineCount < Count.limit

lemma SourceFile.ofJson?_valueOf {file : SourceFile} {datum : Datum} (h : file.InRange)
    (hdatum : file.toDatum? = some datum) : ofJson? (valueOf datum) = some file := by
  obtain ⟨houtline, hcount⟩ := h
  obtain ⟨path, location, language, outline, lineCount, parsed, problem⟩ := file
  obtain ⟨pathDatum, hpath, hrest⟩ := Option.bind_eq_some_iff.mp hdatum
  obtain ⟨locationDatum, hlocation, hdatum⟩ := Option.bind_eq_some_iff.mp hrest
  obtain rfl := Option.some.inj hdatum
  cases problem <;>
    simp [ofJson?, Datum.optionalText, fields?_record, List.lookup_cons, List.lookup_nil,
      Path.ofJson?_valueOf hpath, Path.ofJson?_valueOf hlocation, Outline.ofJson?_valueOf _ houtline,
      counter?_natural hcount]

/-! ## Texts -/

@[simp] lemma Datum.exact_optionalText (key : String) (value : Option String) :
    ExactFields (optionalText key value) := by
  cases value <;> simp [optionalText]

lemma Marker.exact_toDatum (marker : Marker) : marker.toDatum.Exact := by
  simp [toDatum, MarkerKind.toDatum]

lemma CommentLine.exact_toDatum (entry : CommentLine) : entry.toDatum.Exact := by
  simp [toDatum]

lemma Region.exact_toDatum (region : Region) : region.toDatum.Exact := by
  simp [toDatum]

lemma Fault.exact_toDatum (fault : Fault) : fault.toDatum.Exact := by
  simp [toDatum, FaultKind.toDatum]

lemma Outline.exact_toDatum (outline : Outline) : outline.toDatum.Exact := by
  simp [toDatum, Region.exact_toDatum, Fault.exact_toDatum]

lemma FoldDirective.exact_toDatum (directive : FoldDirective) : directive.toDatum.Exact := by
  cases directive <;> simp [toDatum]

lemma Tally.exact_toDatum (tally : Tally) : tally.toDatum.Exact := by
  simp [toDatum, names, counters]

lemma Settings.exact_toDatum (settings : Settings) : settings.toDatum.Exact := by
  simp [toDatum]

/-- A file whose paths are text can be written. -/
lemma SourceFile.exists_toDatum? {file : SourceFile} (hpath : file.path.text?.isSome = true)
    (hlocation : file.location.text?.isSome = true) :
    ∃ datum, file.toDatum? = some datum ∧ datum.Exact := by
  obtain ⟨path, hpath⟩ := Option.isSome_iff_exists.mp hpath
  obtain ⟨location, hlocation⟩ := Option.isSome_iff_exists.mp hlocation
  simp [toDatum?, Path.toDatum?, hpath, hlocation, Language.toDatum, Outline.exact_toDatum]

namespace Json

open Text.Utf8

/-- The record that a text spells. -/
def decode? {α : Type} (ofJson? : Value → Option α) (text : String) : Option α :=
  (parse? text.toList).bind ofJson?

lemma decode?_compact {α : Type} {ofJson? : Value → Option α} {datum : Datum} {a : α}
    (h : datum.Exact) (hread : ofJson? (valueOf datum) = some a) :
    decode? ofJson? (compact datum) = some a := by
  rw [decode?, parse?_compact h, Option.bind_some, hread]

lemma decode?_pretty {α : Type} {ofJson? : Value → Option α} {datum : Datum} {a : α}
    (h : datum.Exact) (hread : ofJson? (valueOf datum) = some a) :
    decode? ofJson? (pretty datum) = some a := by
  rw [decode?, parse?_pretty h, Option.bind_some, hread]

/-- Every record whose numbers fit counters and whose paths are text is read back from its text. -/
theorem decode_written :
    (∀ marker : Marker, marker.line < Count.limit →
      decode? Marker.ofJson? (compact marker.toDatum) = some marker) ∧
    (∀ entry : CommentLine, entry.line < Count.limit →
      decode? CommentLine.ofJson? (compact entry.toDatum) = some entry) ∧
    (∀ region : Region, region.InRange →
      decode? Region.ofJson? (compact region.toDatum) = some region) ∧
    (∀ fault : Fault, fault.line < Count.limit →
      decode? Fault.ofJson? (compact fault.toDatum) = some fault) ∧
    (∀ outline : Outline, outline.InRange →
      decode? Outline.ofJson? (compact outline.toDatum) = some outline) ∧
    (∀ directive : FoldDirective, directive.InRange →
      decode? FoldDirective.ofJson? (compact directive.toDatum) = some directive) ∧
    (∀ tally : Tally, (∀ n ∈ tally.counters, n < Count.limit) →
      decode? Tally.ofJson? (compact tally.toDatum) = some tally) ∧
    (∀ settings : Settings,
      decode? Settings.ofJson? (compact settings.toDatum) = some settings) ∧
    ∀ file : SourceFile, file.InRange → file.path.text?.isSome = true →
      file.location.text?.isSome = true →
        (∃ datum, file.toDatum? = some datum ∧
          decode? SourceFile.ofJson? (compact datum) = some file) ∧
        ∃ text, Report.file .json file = .ok text ∧
          decode? SourceFile.ofJson? text = some file := by
  refine ⟨fun marker h => ?_, fun entry h => ?_, fun region h => ?_, fun fault h => ?_,
    fun outline h => ?_, fun directive h => ?_, fun tally h => ?_, fun settings => ?_,
    fun file h hpath hlocation => ?_⟩
  · exact decode?_compact marker.exact_toDatum (marker.ofJson?_valueOf h)
  · exact decode?_compact entry.exact_toDatum (entry.ofJson?_valueOf h)
  · exact decode?_compact region.exact_toDatum (region.ofJson?_valueOf h)
  · exact decode?_compact fault.exact_toDatum (fault.ofJson?_valueOf h)
  · exact decode?_compact outline.exact_toDatum (outline.ofJson?_valueOf h)
  · exact decode?_compact directive.exact_toDatum (directive.ofJson?_valueOf h)
  · exact decode?_compact tally.exact_toDatum (tally.ofJson?_valueOf h)
  · exact decode?_compact settings.exact_toDatum settings.ofJson?_valueOf
  · obtain ⟨datum, hdatum, hexact⟩ := SourceFile.exists_toDatum? hpath hlocation
    have hread := SourceFile.ofJson?_valueOf h hdatum
    refine ⟨⟨datum, hdatum, decode?_compact hexact hread⟩, pretty datum, ?_,
      decode?_pretty hexact hread⟩
    rw [Report.file, hdatum, Report.asJson]

/-- A file with the largest number, a path of é and 😀 and characters that are escaped. -/
def quotedFile : SourceFile where
  path := ⟨[0xc3, 0xa9, 0xf0, 0x9f, 0x98, 0x80]⟩
  location := ⟨[47, 0xc3, 0xa9, 0xf0, 0x9f, 0x98, 0x80]⟩
  language := .python
  outline := ⟨[⟨1, Count.limit - 1, 1, some "a \"b\" \\ \t\x01", true⟩], [⟨0, .unclosedStart, "\n"⟩]⟩
  lineCount := Count.limit - 1
  parsed := true

theorem decode_written_quotedFile :
    (quotedFile.InRange ∧ quotedFile.path.text?.isSome = true ∧
      quotedFile.location.text?.isSome = true) ∧
    ∃ text, Report.file .json quotedFile = .ok text ∧
      decode? SourceFile.ofJson? text = some quotedFile := by
  have hrange : quotedFile.InRange := by
    refine ⟨⟨?_, ?_⟩, by decide⟩
    · intro region hregion
      obtain rfl := List.mem_singleton.mp hregion
      exact ⟨by decide, by decide, by decide⟩
    · intro fault hfault
      obtain rfl := List.mem_singleton.mp hfault
      decide
  have hpath : quotedFile.path.text?.isSome = true := by
    simp [quotedFile, Path.text?, decode?_cons, decode?_nil, first, lead?, continuation]
  have hlocation : quotedFile.location.text?.isSome = true := by
    simp [quotedFile, Path.text?, decode?_cons, decode?_nil, first, lead?, continuation]
  obtain ⟨-, -, -, -, -, -, -, -, hfile⟩ := decode_written
  exact ⟨⟨hrange, hpath, hlocation⟩, (hfile quotedFile hrange hpath hlocation).2⟩

end Json

end Foldmark
