import Foldmark.Json.Token
import Foldmark.Json.Writer
import Mathlib.Data.List.TakeWhile

/-!
# Tokens of written data

The texts that data are written as are cut into the tokens of the data again, compactly or over
lines. A numeral or a word reaches as far as its characters do, so what follows must not go on with
it (`Stops`); signs and blanks never do. Floating-point numbers are left out: a datum without them is
`Exact`.
-/
namespace Foldmark

namespace Datum

mutual

/-- No floating-point number occurs. -/
def Exact : Datum → Prop
  | .flag _ => True
  | .natural _ => True
  | .real _ => False
  | .text _ => True
  | .list items => ExactItems items
  | .record fields => ExactFields fields

def ExactItems : List Datum → Prop
  | [] => True
  | item :: items => item.Exact ∧ ExactItems items

def ExactFields : List (String × Datum) → Prop
  | [] => True
  | (_, value) :: fields => value.Exact ∧ ExactFields fields

end

lemma exactItems_iff {items : List Datum} : ExactItems items ↔ ∀ item ∈ items, item.Exact := by
  induction items with
  | nil => simp [ExactItems]
  | cons item items ih => simp [ExactItems, ih]

lemma exactFields_iff {fields : List (String × Datum)} :
    ExactFields fields ↔ ∀ field ∈ fields, field.2.Exact := by
  induction fields with
  | nil => simp [ExactFields]
  | cons field fields ih => simp [ExactFields, ih]

@[simp] lemma exact_flag (b : Bool) : (flag b).Exact := trivial

@[simp] lemma exact_natural (n : Nat) : (natural n).Exact := trivial

@[simp] lemma exact_text (s : String) : (text s).Exact := trivial

@[simp] lemma exact_list {items : List Datum} : (list items).Exact ↔ ∀ item ∈ items, item.Exact :=
  exactItems_iff

@[simp] lemma exact_record {fields : List (String × Datum)} :
    (record fields).Exact ↔ ExactFields fields := Iff.rfl

@[simp] lemma exactFields_nil : ExactFields [] := trivial

@[simp] lemma exactFields_cons {key : String} {value : Datum} {fields : List (String × Datum)} :
    ExactFields ((key, value) :: fields) ↔ value.Exact ∧ ExactFields fields := Iff.rfl

@[simp] lemma exactFields_append {a b : List (String × Datum)} :
    ExactFields (a ++ b) ↔ ExactFields a ∧ ExactFields b := by
  simp only [exactFields_iff, List.mem_append, or_imp, forall_and]

end Datum

namespace Json

/-- The numeral of a natural number. -/
def numeralOf (n : Nat) : Decimal.Numeral where
  negative := false
  whole := (Nat.toDigits 10 n).map digitValue

mutual

/-- The tokens of a datum. -/
def tokensOf : Datum → List Token
  | .flag value => [.flag value]
  | .natural value => [.number (numeralOf value)]
  | .real _ => []
  | .text value => [.text (some value)]
  | .list [] => [.openList, .closeList]
  | .list (item :: items) => .openList :: tokensOf item ++ itemTokens items ++ [.closeList]
  | .record [] => [.openRecord, .closeRecord]
  | .record ((key, value) :: fields) =>
    .openRecord :: .text (some key) :: .colon :: tokensOf value ++ fieldTokens fields ++
      [.closeRecord]

def itemTokens : List Datum → List Token
  | [] => []
  | item :: items => .comma :: tokensOf item ++ itemTokens items

def fieldTokens : List (String × Datum) → List Token
  | [] => []
  | (key, value) :: fields =>
    .comma :: .text (some key) :: .colon :: tokensOf value ++ fieldTokens fields

end

/-! ## One token -/

/-- The text does not go on with a numeral or a word. -/
def Stops (rest : List Char) : Prop :=
  ∀ c ∈ rest.head?, isNumeralChar c = false ∧ c.isAlpha = false

lemma stops_nil : Stops [] := by simp [Stops]

lemma stops_cons {c : Char} (h : isNumeralChar c = false ∧ c.isAlpha = false) (rest : List Char) :
    Stops (c :: rest) := by
  simpa [Stops] using h

lemma stops_of_isSpace {c : Char} (h : isSpace c = true) (rest : List Char) : Stops (c :: rest) := by
  simp only [isSpace, Bool.or_eq_true, beq_iff_eq] at h
  apply stops_cons
  rcases h with ((rfl | rfl) | rfl) | rfl <;> decide

lemma tokensFrom?_cons {mode next : Mode} {c : Char} {found : List Token}
    (h : step? mode c = some (found, next)) (rest : List Char) :
    tokensFrom? mode (c :: rest) = (tokensFrom? next rest).map (found ++ ·) := by
  rw [tokensFrom?, h]
  change (tokensFrom? next rest).bind _ = _
  cases tokensFrom? next rest <;> rfl

/-- Where `rest` follows, the text is cut into the given tokens, and all of it belongs to them. -/
def Yields (mode : Mode) (s : List Char) (tokens : List Token) (rest : List Char) : Prop :=
  tokensFrom? mode (s ++ rest) = (tokensFrom? .between rest).map (tokens ++ ·)

lemma Yields.trans {mode : Mode} {s t rest : List Char} {a b : List Token}
    (hs : Yields mode s a (t ++ rest)) (ht : Yields .between t b rest) :
    Yields mode (s ++ t) (a ++ b) rest := by
  unfold Yields at *
  rw [List.append_assoc, hs, ht, Option.map_map]
  simp [Function.comp_def]

/-- A character that completes no token goes on with the current one. -/
lemma Yields.step {mode next : Mode} {c : Char} {s rest : List Char} {tokens : List Token}
    (h : step? mode c = some ([], next)) (hs : Yields next s tokens rest) :
    Yields mode (c :: s) tokens rest := by
  unfold Yields at *
  rw [List.cons_append, tokensFrom?_cons h, hs, Option.map_map]
  rfl

lemma yields_nil (rest : List Char) : Yields .between [] [] rest := by
  simp [Yields]

lemma yields_sign {c : Char} {token : Token} (h : step? .between c = some ([token], .between))
    (rest : List Char) : Yields .between [c] [token] rest :=
  tokensFrom?_cons h rest

lemma yields_blanks {blanks : List Char} (h : ∀ c ∈ blanks, isSpace c = true) (rest : List Char) :
    Yields .between blanks [] rest := by
  induction blanks with
  | nil => exact yields_nil rest
  | cons c blanks ih =>
    have hc := h c List.mem_cons_self
    exact Yields.step (by simp [step?, outside?, hc])
      (ih fun d hd => h d (List.mem_cons_of_mem _ hd))

/-- A numeral or a word ends where the text does not go on with it. -/
lemma yields_of_stops {mode : Mode} {ended : List Token} (h : finish? mode = some ended)
    (hmode : (∃ done, mode = .word done) ∨ ∃ done, mode = .numeral done) {rest : List Char}
    (hrest : Stops rest) : Yields mode [] ended rest := by
  unfold Yields
  rw [List.nil_append]
  cases rest with
  | nil => simpa [tokensFrom?, finish?] using h
  | cons c rest =>
    obtain ⟨hnumeral, halpha⟩ := hrest c rfl
    have hstep : step? mode c = (outside? c).map fun found => (ended ++ found.1, found.2) := by
      rcases hmode with ⟨done, rfl⟩ | ⟨done, rfl⟩ <;>
        cases hout : outside? c <;> simp [step?, hnumeral, halpha, h, hout]
    cases hout : outside? c with
    | none =>
      rw [hout] at hstep
      simp [tokensFrom?, hstep, show step? .between c = none from hout]
    | some found =>
      rw [hout] at hstep
      have hbetween : step? .between c = some (found.1, found.2) := hout
      rw [tokensFrom?_cons hstep, tokensFrom?_cons hbetween, Option.map_map]
      simp [Function.comp_def]

/-! ## Numbers and flags -/

lemma yields_numeral {done digits rest : List Char} {n : Decimal.Numeral}
    (hdigits : ∀ c ∈ digits, isNumeralChar c = true)
    (hn : numeral? (done.reverse ++ digits) = some n) (hrest : Stops rest) :
    Yields (.numeral done) digits [.number n] rest := by
  induction digits generalizing done with
  | nil =>
    refine yields_of_stops ?_ (.inr ⟨done, rfl⟩) hrest
    rw [List.append_nil] at hn
    simp [finish?, hn]
  | cons c digits ih =>
    have hc := hdigits c List.mem_cons_self
    have hstep : step? (.numeral done) c = some ([], .numeral (c :: done)) := by simp [step?, hc]
    exact Yields.step hstep
      (ih (fun d hd => hdigits d (List.mem_cons_of_mem _ hd)) (by simpa using hn))

lemma yields_word {done letters rest : List Char} {token : Token}
    (hletters : ∀ c ∈ letters, c.isAlpha = true)
    (hword : word? (done.reverse ++ letters) = some token) (hrest : Stops rest) :
    Yields (.word done) letters [token] rest := by
  induction letters generalizing done with
  | nil =>
    refine yields_of_stops ?_ (.inl ⟨done, rfl⟩) hrest
    rw [List.append_nil] at hword
    simp [finish?, hword]
  | cons c letters ih =>
    have hc := hletters c List.mem_cons_self
    have hstep : step? (.word done) c = some ([], .word (c :: done)) := by simp [step?, hc]
    exact Yields.step hstep
      (ih (fun d hd => hletters d (List.mem_cons_of_mem _ hd)) (by simpa using hword))

lemma yields_flag (value : Bool) {rest : List Char} (hrest : Stops rest) :
    Yields .between (if value then "true".toList else "false".toList) [.flag value] rest := by
  cases value with
  | true =>
    have hstep : step? .between 't' = some ([], .word ['t']) := by rfl
    exact Yields.step hstep (yields_word (List.all_eq_true.mp (by decide)) (by decide) hrest)
  | false =>
    have hstep : step? .between 'f' = some ([], .word ['f']) := by rfl
    exact Yields.step hstep (yields_word (List.all_eq_true.mp (by decide)) (by decide) hrest)

/-- A number is written without leading zeros. -/
lemma head_toDigits_ne_zero {n : Nat} (h : 0 < n) : (Nat.toDigits 10 n).head? ≠ some '0' := by
  induction n using Nat.strongRecOn with
  | ind n ih =>
    by_cases hlt : n < 10
    · rw [Nat.toDigits_of_lt_base hlt]
      simp
      omega
    · have hhead := ih (n / 10) (by omega) (by omega)
      rw [Nat.toDigits_of_base_le (by decide) (by omega), List.head?_append]
      obtain ⟨c, digits, hdigits⟩ :=
        List.exists_cons_of_ne_nil (Nat.toDigits_ne_nil (n := n / 10) (b := 10))
      rw [hdigits] at hhead ⊢
      simpa using hhead

lemma numeral?_toDigits (n : Nat) : numeral? (Nat.toDigits 10 n) = some (numeralOf n) := by
  have hdigit : ∀ c ∈ Nat.toDigits 10 n, c.isDigit = true := fun c hc =>
    Nat.isDigit_of_mem_toDigits (by decide) (by decide) hc
  have hne : Nat.toDigits 10 n ≠ [] := Nat.toDigits_ne_nil
  have htake : (Nat.toDigits 10 n).takeWhile Char.isDigit = Nat.toDigits 10 n :=
    List.takeWhile_eq_self_iff.mpr hdigit
  have hdrop : (Nat.toDigits 10 n).dropWhile Char.isDigit = [] :=
    List.dropWhile_eq_nil_iff.mpr hdigit
  have hzero : ((Nat.toDigits 10 n).head? == some '0' && 1 < (Nat.toDigits 10 n).length) = false := by
    rcases Nat.eq_zero_or_pos n with rfl | hpos
    · decide
    · simp [head_toDigits_ne_zero hpos]
  unfold numeral?
  split
  rename_i negative s heq
  split at heq
  · -- the first character is a digit, so there is no sign before the digits
    rename_i rest hrest
    exact absurd (hdigit '-' (by simp [hrest])) (by decide)
  · obtain ⟨rfl, rfl⟩ := Prod.mk.inj heq
    simp only [htake, hdrop]
    rw [hzero, Bool.or_false, if_neg (by simp)]
    rfl

lemma step?_digit {c : Char} (h : c.isDigit = true) :
    step? .between c = some ([], .numeral [c]) := by
  have hother : ∀ d : Char, d.isDigit = false → c ≠ d := by
    rintro d hd rfl
    simp [hd] at h
  simp [step?, outside?, isSpace, sign?, begin?, h, hother]

lemma yields_natural (n : Nat) {rest : List Char} (hrest : Stops rest) :
    Yields .between (toString n).toList [.number (numeralOf n)] rest := by
  have hdigit : ∀ c ∈ Nat.toDigits 10 n, c.isDigit = true := fun c hc =>
    Nat.isDigit_of_mem_toDigits (by decide) (by decide) hc
  have hnumeral := numeral?_toDigits n
  rw [show (toString n).toList = Nat.toDigits 10 n by simp [Nat.toString_eq_repr]]
  cases hdigits : Nat.toDigits 10 n with
  | nil => exact absurd hdigits Nat.toDigits_ne_nil
  | cons c digits =>
    rw [hdigits] at hdigit hnumeral
    have hc := hdigit c List.mem_cons_self
    have hstep : step? .between c = some ([], .numeral [c]) := step?_digit hc
    refine Yields.step hstep (yields_numeral (fun d hd => ?_) hnumeral hrest)
    simp [isNumeralChar, hdigit d (List.mem_cons_of_mem _ hd)]

/-! ## Strings -/

/-- What an escaped character is read as: a control character without a short escape is given by its
code. -/
def partOf (c : Char) : StringPart :=
  if c = '\n' ∨ c = '\r' ∨ c = '\t' ∨ c.toNat = 8 ∨ c.toNat = 12 then .char c
  else if c.toNat < 32 then .code c.toNat
  else .char c

lemma textOf?_code {n : Nat} (h : n < 32) (parts : List StringPart) :
    textOf? (.code n :: parts) = (textOf? parts).map (Char.ofNat n :: ·) := by
  have hhigh : isHighSurrogate n = false := by simp [isHighSurrogate]; omega
  have hlow : isLowSurrogate n = false := by simp [isLowSurrogate]; omega
  rcases parts with _ | ⟨c | low, parts⟩ <;> simp [textOf?, hhigh, hlow]

lemma textOf?_partOf (c : Char) (parts : List StringPart) :
    textOf? (partOf c :: parts) = (textOf? parts).map (c :: ·) := by
  unfold partOf
  split_ifs with hshort hcontrol
  · rfl
  · rw [textOf?_code hcontrol, Char.ofNat_toNat]
  · rfl

lemma textOf?_map_partOf (cs : List Char) : textOf? (cs.map partOf) = some cs := by
  induction cs with
  | nil => rfl
  | cons c cs ih => rw [List.map_cons, textOf?_partOf, ih, Option.map_some]

lemma hexValue?_hexDigit : ∀ n < 16, hexValue? (hexDigit n) = some n := by decide

/-- The escape of a control character is read back as its code. -/
lemma yields_hex {done : List StringPart} {n : Nat} (hn : n < 32) {s rest : List Char}
    {tokens : List Token} (h : Yields (.string (.code n :: done)) s tokens rest) :
    Yields (.string done)
      (['\\', 'u', '0', '0', hexDigit (n / 16), hexDigit (n % 16)] ++ s) tokens rest := by
  have hsum : n / 16 * 16 + n % 16 = n := Nat.div_add_mod' n 16
  have hfirst : step? (.hex done [0, 0]) (hexDigit (n / 16)) =
      some ([], .hex done [0, 0, n / 16]) := by
    simp [step?, hexValue?_hexDigit (n / 16) (by omega)]
  have hsecond : step? (.hex done [0, 0, n / 16]) (hexDigit (n % 16)) =
      some ([], .string (.code n :: done)) := by
    simp [step?, hexValue?_hexDigit (n % 16) (by omega), hsum]
  have hescape : step? (.string done) '\\' = some ([], .escape done) := rfl
  have hmark : step? (.escape done) 'u' = some ([], .hex done []) := rfl
  have hzero : step? (.hex done []) '0' = some ([], .hex done [0]) := rfl
  have hzeros : step? (.hex done [0]) '0' = some ([], .hex done [0, 0]) := rfl
  exact .step hescape (.step hmark (.step hzero (.step hzeros (.step hfirst (.step hsecond h)))))

/-- A short escape is read back as the character that it stands for. -/
lemma yields_short {done : List StringPart} {c d : Char} (hd : d ≠ 'u')
    (hc : simpleEscape? d = some c) {s rest : List Char} {tokens : List Token}
    (h : Yields (.string (.char c :: done)) s tokens rest) :
    Yields (.string done) (['\\', d] ++ s) tokens rest := by
  have hescape : step? (.string done) '\\' = some ([], .escape done) := rfl
  have hshort : step? (.escape done) d = some ([], .string (.char c :: done)) := by
    simp [step?, hd, hc]
  exact .step hescape (.step hshort h)

lemma yields_escape {done : List StringPart} {c : Char} {s rest : List Char}
    {tokens : List Token} (h : Yields (.string (partOf c :: done)) s tokens rest) :
    Yields (.string done) (escape c ++ s) tokens rest := by
  unfold partOf at h
  unfold escape
  split_ifs with hquote hback hfeed hreturn htab hbell hform hcontrol
  · subst hquote
    exact yields_short (by decide) (by decide) h
  · subst hback
    exact yields_short (by decide) (by decide) h
  · subst hfeed
    exact yields_short (by decide) (by decide) h
  · subst hreturn
    exact yields_short (by decide) (by decide) h
  · subst htab
    exact yields_short (by decide) (by decide) h
  · obtain rfl : Char.ofNat 8 = c := by rw [← hbell, Char.ofNat_toNat]
    exact yields_short (by decide) (by decide) h
  · obtain rfl : Char.ofNat 12 = c := by rw [← hform, Char.ofNat_toNat]
    exact yields_short (by decide) (by decide) h
  · simp only [hfeed, hreturn, htab, hbell, hform, hcontrol, or_self, if_false, if_true] at h
    exact yields_hex hcontrol h
  · simp only [hfeed, hreturn, htab, hbell, hform, hcontrol, or_self, if_false] at h
    refine Yields.step ?_ h
    simp [step?, hquote, hback, hcontrol]

lemma yields_chars {done : List StringPart} (cs : List Char) (rest : List Char) :
    Yields (.string done) (cs.flatMap escape ++ ['\x22'])
      [.text ((textOf? (done.reverse ++ cs.map partOf)).map String.ofList)] rest := by
  induction cs generalizing done with
  | nil =>
    have hend : step? (.string done) '\x22' =
      some ([.text ((textOf? done.reverse).map String.ofList)], .between) := rfl
    rw [List.map_nil, List.append_nil]
    exact tokensFrom?_cons hend rest
  | cons c cs ih =>
    rw [List.flatMap_cons, List.append_assoc]
    refine yields_escape ?_
    have hrest := @ih (partOf c :: done)
    simpa using hrest

/-- A string is cut off at its closing quote, whatever follows. -/
theorem yields_quote (s : String) (rest : List Char) :
    Yields .between (quote s) [.text (some s)] rest := by
  have hopen : step? .between '\x22' = some ([], .string []) := rfl
  have hchars := @yields_chars [] s.toList rest
  rw [List.reverse_nil, List.nil_append, textOf?_map_partOf, Option.map_some,
    String.ofList_toList] at hchars
  exact .step hopen hchars

/-! ## Data -/

/-- Only blanks stand between the parts of a list or record. -/
structure Spacing.IsBlank (spacing : Spacing) : Prop where
  before : ∀ depth, ∀ c ∈ spacing.before depth, isSpace c = true
  afterColon : ∀ c ∈ spacing.afterColon, isSpace c = true

lemma isBlank_compactSpacing : compactSpacing.IsBlank where
  before := by simp [compactSpacing]
  afterColon := by simp [compactSpacing]

lemma isBlank_prettySpacing : prettySpacing.IsBlank where
  before := by
    intro depth c hc
    rcases List.mem_cons.mp hc with rfl | hc
    · rfl
    · rw [List.eq_of_mem_replicate hc]
      rfl
  afterColon := by
    intro c hc
    rw [List.mem_singleton.mp hc]
    rfl

lemma Stops.blanks_append {s rest : List Char} (h : Stops (s ++ rest)) {blanks : List Char}
    (hblanks : ∀ c ∈ blanks, isSpace c = true) : Stops (blanks ++ s ++ rest) := by
  cases blanks with
  | nil => exact h
  | cons c blanks => exact stops_of_isSpace (hblanks c List.mem_cons_self) _

lemma Stops.writeItems_append {s rest : List Char} (h : Stops (s ++ rest)) (spacing : Spacing)
    (depth : Nat) (items : List Datum) : Stops (writeItems spacing depth items ++ s ++ rest) := by
  cases items with
  | nil => exact h
  | cons item items => exact stops_cons (by decide) _

lemma Stops.writeFields_append {s rest : List Char} (h : Stops (s ++ rest)) (spacing : Spacing)
    (depth : Nat) (fields : List (String × Datum)) :
    Stops (writeFields spacing depth fields ++ s ++ rest) := by
  cases fields with
  | nil => exact h
  | cons field fields => exact stops_cons (by decide) _

section

variable {spacing : Spacing} (hb : spacing.IsBlank)
include hb

/-- A key and what stands between it and its value. -/
lemma yields_key (key : String) (rest : List Char) :
    Yields .between (quote key ++ ([':'] ++ spacing.afterColon)) [.text (some key), .colon] rest :=
  (yields_quote key _).trans ((yields_sign rfl _).trans (yields_blanks hb.afterColon rest))

mutual

/-- A written datum is cut into its tokens, whatever follows that does not go on with it. -/
theorem yields_write (depth : Nat) (datum : Datum) (h : datum.Exact) {rest : List Char}
    (hrest : Stops rest) : Yields .between (write spacing depth datum) (tokensOf datum) rest := by
  match datum, h with
  | .flag value, _ => exact yields_flag value hrest
  | .natural value, _ => exact yields_natural value hrest
  | .text value, _ => exact yields_quote value rest
  | .list [], _ => exact (yields_sign (c := '[') rfl _).trans (yields_sign rfl rest)
  | .list (item :: items), h =>
    -- the parts are put together from the end, as each has to stop at what follows it
    have hclose := (yields_blanks (hb.before depth) _).trans (yields_sign (c := ']') rfl rest)
    have hstop : Stops (spacing.before depth ++ [']'] ++ rest) :=
      (stops_cons (by decide) rest).blanks_append (s := [']']) (hb.before depth)
    have hitems := (yields_writeItems (depth + 1) items h.2 hstop).trans hclose
    have hitem := (yields_write (depth + 1) item h.1
      (hstop.writeItems_append spacing (depth + 1) items)).trans hitems
    have hopen := (yields_sign (c := '[') rfl _).trans
      ((yields_blanks (hb.before (depth + 1)) _).trans hitem)
    simpa [write, tokensOf] using hopen
  | .record [], _ => exact (yields_sign (c := '\x7b') rfl _).trans (yields_sign rfl rest)
  | .record ((key, value) :: fields), h =>
    have hclose := (yields_blanks (hb.before depth) _).trans (yields_sign (c := '\x7d') rfl rest)
    have hstop : Stops (spacing.before depth ++ ['\x7d'] ++ rest) :=
      (stops_cons (by decide) rest).blanks_append (s := ['\x7d']) (hb.before depth)
    have hfields := (yields_writeFields (depth + 1) fields h.2 hstop).trans hclose
    have hvalue := (yields_write (depth + 1) value h.1
      (hstop.writeFields_append spacing (depth + 1) fields)).trans hfields
    have hopen := (yields_sign (c := '\x7b') rfl _).trans
      ((yields_blanks (hb.before (depth + 1)) _).trans ((yields_key hb key _).trans hvalue))
    simpa [write, tokensOf] using hopen

theorem yields_writeItems (depth : Nat) (items : List Datum) (h : Datum.ExactItems items)
    {rest : List Char} (hrest : Stops rest) :
    Yields .between (writeItems spacing depth items) (itemTokens items) rest := by
  match items, h with
  | [], _ => exact yields_nil rest
  | item :: items, h =>
    have hstop : Stops (writeItems spacing depth items ++ rest) := by
      simpa using Stops.writeItems_append (s := []) hrest spacing depth items
    have hitem := (yields_write depth item h.1 hstop).trans (yields_writeItems depth items h.2 hrest)
    have hcomma := (yields_sign (c := ',') rfl _).trans
      ((yields_blanks (hb.before depth) _).trans hitem)
    simpa [writeItems, itemTokens] using hcomma

theorem yields_writeFields (depth : Nat) (fields : List (String × Datum))
    (h : Datum.ExactFields fields) {rest : List Char} (hrest : Stops rest) :
    Yields .between (writeFields spacing depth fields) (fieldTokens fields) rest := by
  match fields, h with
  | [], _ => exact yields_nil rest
  | (key, value) :: fields, h =>
    have hstop : Stops (writeFields spacing depth fields ++ rest) := by
      simpa using Stops.writeFields_append (s := []) hrest spacing depth fields
    have hvalue :=
      (yields_write depth value h.1 hstop).trans (yields_writeFields depth fields h.2 hrest)
    have hcomma := (yields_sign (c := ',') rfl _).trans
      ((yields_blanks (hb.before depth) _).trans ((yields_key hb key _).trans hvalue))
    simpa [writeFields, fieldTokens] using hcomma

end

/-- The text of a datum has the tokens of the datum. -/
theorem tokens?_write (depth : Nat) (datum : Datum) (h : datum.Exact) :
    tokens? (write spacing depth datum) = some (tokensOf datum) := by
  have hyields := yields_write hb depth datum h stops_nil
  simpa [Yields, tokens?, tokensFrom?, finish?] using hyields

end

end Json

end Foldmark
