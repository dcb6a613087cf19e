import Foldmark.Comment.JavaScript
import Foldmark.Proofs.Comment.Returns

/-!
# Line ends in JavaScript

The comments of a JavaScript or TypeScript source are the same with and without carriage returns. A
comment after two slashes stops before the carriage return, an HTML comment takes it along, and so does
a string that is not closed on its line. An escaped line end in a template is cut between its two
characters; what follows is still the template.
-/
namespace Foldmark.Comment.JavaScript

open Text

/-! ## Lengths of tokens -/

lemma blockLength_withReturns (s : List Char) :
    blockLength (withReturns s) = stretch s (blockLength s) := by
  induction s with
  | nil => rfl
  | cons c s ih =>
    by_cases hc : c = '\n'
    · subst hc
      simp [blockLength, ih, Nat.add_comm 1, stretch_succ_feed]
    · have hhead := head?_withReturns (s := s) (c := '/') (by decide) (by decide)
      rw [withReturns_cons hc]
      simp only [blockLength, hhead]
      split_ifs with hclose
      · have hmore := stretch_of_not_mem (feed_not_mem_take_one hclose.2 (by decide))
        rw [stretch_succ hc, hmore]
      · rw [ih, Nat.add_comm 1, Nat.add_comm 1, stretch_succ hc]

lemma withReturns_eq_nil {P : Prop} {s : List Char} (h : ∀ c rest, P → s = c :: rest → False)
    (hp : P) : withReturns s = [] := by
  cases s with
  | nil => rfl
  | cons c rest => exact (h c rest hp rfl).elim

lemma quotedLength_escape (quote : Char) {c : Char} (hc : c ≠ '\r') (s : List Char) :
    quotedLength quote ('\\' :: c :: s) = 2 + quotedLength quote s := by
  rw [quotedLength]
  simp [hc]

lemma quotedLength_cons (quote : Char) {c : Char} {s : List Char} (hc : c = '\\' → s = []) :
    quotedLength quote (c :: s) =
      if c = quote then 1 else if c = '\n' then 0 else 1 + quotedLength quote s := by
  rw [quotedLength]
  · simp_all
  · simp_all

/-- A string that is not closed stops at the line feed. -/
lemma reaches_quotedLength {quote : Char} (hf : quote ≠ '\n') (hr : quote ≠ '\r') {s : List Char}
    (h : '\r' ∉ s) :
    Reaches s (quotedLength quote s) (quotedLength quote (withReturns s)) := by
  fun_induction quotedLength quote s with
  | case1 => exact .even
  | case2 rest ih => simp at h
  | case3 c rest hreturn ih =>
    simp only [List.mem_cons, not_or] at h
    have ih := ih h.2.2
    rw [withReturns_cons (by decide)]
    by_cases hc : c = '\n'
    · -- an escaped line feed becomes an escape of three characters
      subst hc
      have hreaches := ih.cons_feed.cons (c := '\\') (by decide)
      rw [withReturns_feed, quotedLength, Nat.add_comm 2, Nat.add_comm 3]
      exact hreaches
    · have hreaches := (ih.cons hc).cons (c := '\\') (by decide)
      rw [withReturns_cons hc, quotedLength_escape quote (Ne.symm h.2.1), Nat.add_comm 2,
        Nat.add_comm 2]
      exact hreaches
  | case4 rest _ hescape =>
    rw [withReturns_cons hf, quotedLength_cons quote (withReturns_eq_nil hescape), if_pos rfl]
    simpa using (Reaches.even (s := rest) (n := 0)).cons hf
  | case5 rest _ _ hquote =>
    rw [withReturns_feed, quotedLength_cons quote (by simp), if_neg (Ne.symm hr),
      if_neg (by decide), quotedLength_cons quote (by simp), if_neg hquote, if_pos rfl]
    simpa using Reaches.ahead (s := '\n' :: rest) (n := 0) rest rfl
  | case6 c rest _ hescape hquote hc ih =>
    rw [List.mem_cons, not_or] at h
    rw [withReturns_cons hc, quotedLength_cons quote (withReturns_eq_nil hescape), if_neg hquote,
      if_neg hc, Nat.add_comm 1, Nat.add_comm 1]
    exact (ih h.2).cons hc

lemma regexLength_escape (inClass : Bool) (c : Char) (s : List Char) :
    regexLength inClass ('\\' :: c :: s) =
      if isTerminator c then 1 else 2 + regexLength inClass s := by
  rw [regexLength]

lemma regexLength_cons (inClass : Bool) {c : Char} {s : List Char} (hc : c = '\\' → s = []) :
    regexLength inClass (c :: s) =
      if isTerminator c then 0
      else if c = '/' ∧ ¬inClass then 1
      else if c = '[' then 1 + regexLength true s
      else if c = ']' then 1 + regexLength false s
      else 1 + regexLength inClass s := by
  rw [regexLength]
  simp_all

lemma ne_feed_of_not_isTerminator {c : Char} (h : ¬isTerminator c = true) : c ≠ '\n' := by
  rintro rfl
  exact h rfl

lemma regexLength_withReturns (inClass : Bool) (s : List Char) :
    regexLength inClass (withReturns s) = regexLength inClass s := by
  fun_induction regexLength inClass s with
  | case1 => rfl
  | case2 inClass c rest hterm =>
    rw [withReturns_cons (by decide)]
    by_cases hc : c = '\n'
    · rw [hc, withReturns_feed, regexLength_escape, if_pos (by decide)]
    · rw [withReturns_cons hc, regexLength_escape, if_pos hterm]
  | case3 inClass c rest hterm ih =>
    have hc := ne_feed_of_not_isTerminator hterm
    rw [withReturns_cons (by decide), withReturns_cons hc, regexLength_escape, if_neg hterm, ih]
  | case4 inClass c rest hescape hterm =>
    by_cases hc : c = '\n'
    · rw [hc, withReturns_feed, regexLength_cons _ (by simp), if_pos (by decide)]
    · rw [withReturns_cons hc, regexLength_cons _ (withReturns_eq_nil hescape), if_pos hterm]
  | case5 inClass c rest hescape hterm hslash =>
    rw [withReturns_cons (ne_feed_of_not_isTerminator hterm),
      regexLength_cons _ (withReturns_eq_nil hescape), if_neg hterm, if_pos hslash]
  | case6 inClass rest hescape hterm hslash ih =>
    rw [withReturns_cons (by decide), regexLength_cons _ (withReturns_eq_nil hescape),
      if_neg hterm, if_neg hslash, if_pos rfl, ih]
  | case7 inClass rest hescape hterm hslash hopen ih =>
    rw [withReturns_cons (by decide), regexLength_cons _ (withReturns_eq_nil hescape),
      if_neg hterm, if_neg hslash, if_neg hopen, if_pos rfl, ih]
  | case8 inClass c rest hescape hterm hslash hopen hclose ih =>
    rw [withReturns_cons (ne_feed_of_not_isTerminator hterm),
      regexLength_cons _ (withReturns_eq_nil hescape), if_neg hterm, if_neg hslash, if_neg hopen,
      if_neg hclose, ih]

/-- A regular expression ends on its line. -/
lemma feed_not_mem_take_regexLength (inClass : Bool) (s : List Char) :
    '\n' ∉ s.take (regexLength inClass s) := by
  fun_induction regexLength inClass s with
  | case1 => simp
  | case2 inClass c rest hterm => simp
  | case3 inClass c rest hterm ih =>
    simpa [Nat.add_comm 2, (ne_feed_of_not_isTerminator hterm).symm] using ih
  | case4 inClass c rest hescape hterm => simp
  | case5 inClass c rest hescape hterm hslash => simp [hslash.1]
  | case6 inClass rest hescape hterm hslash ih => simpa [Nat.add_comm 1] using ih
  | case7 inClass rest hescape hterm hslash hopen ih => simpa [Nat.add_comm 1] using ih
  | case8 inClass c rest hescape hterm hslash hopen hclose ih =>
    simpa [Nat.add_comm 1, (ne_feed_of_not_isTerminator hterm).symm] using ih

/-! ## Markup -/

lemma closesLater_withReturns (name s : List Char) :
    closesLater name (withReturns s) = closesLater name s := by
  induction s with
  | nil => rfl
  | cons c s ih =>
    by_cases hc : c = '\n'
    · subst hc
      simp [closesLater, ih]
    · rw [withReturns_cons hc, closesLater, closesLater, ih]
      by_cases hslash : s.head? = some '/'
      · obtain ⟨rest, rfl⟩ : ∃ rest, s = '/' :: rest := ⟨_, (List.cons_head?_tail hslash).symm⟩
        rw [withReturns_cons (by decide), List.drop_one, List.tail_cons, List.drop_one,
          List.tail_cons, dropWhile_withReturns (by decide),
          takeWhile_withReturns (by decide) (by decide)]
        rfl
      · have hslash' : (withReturns s).head? ≠ some '/' :=
          mt (head?_withReturns (by decide) (by decide)).mp hslash
        rw [beq_eq_false_iff_ne.mpr hslash, beq_eq_false_iff_ne.mpr hslash']
        simp

lemma extendsType_withReturns (s : List Char) : extendsType (withReturns s) = extendsType s := by
  simp only [extendsType, stripStart?_withReturns "extends".toList s (by decide) (by decide)]
  cases Text.stripStart? "extends".toList s with
  | none => rfl
  | some after =>
    cases after with
    | nil => rfl
    | cons c after =>
      simp only [Option.map_some]
      have hspace := dropWhile_withReturns_cases (p := isSpace) (by decide) (by decide) (c :: after)
      by_cases hc : c = '\n'
      · subst hc
        rw [withReturns_feed] at hspace ⊢
        rcases hspace with ⟨hdrop, hdrop'⟩ | ⟨d, rest, hdrop, hdrop'⟩
        · simp only [hdrop, hdrop']
          rfl
        · simp only [hdrop, hdrop']
          rfl
      · rw [withReturns_cons hc] at hspace ⊢
        rcases hspace with ⟨hdrop, hdrop'⟩ | ⟨d, rest, hdrop, hdrop'⟩
        · simp only [hdrop, hdrop']
        · simp only [hdrop, hdrop']

lemma opensElement_withReturns (typed : Bool) (s : List Char) :
    opensElement typed (withReturns s) = opensElement typed s := by
  have hname : (withReturns s).takeWhile isNameChar = s.takeWhile isNameChar :=
    takeWhile_withReturns (by decide) (by decide) s
  have hhead : ((withReturns s).head? == some '>') = (s.head? == some '>') := by
    rw [Bool.eq_iff_iff, beq_iff_eq, beq_iff_eq, head?_withReturns (by decide) (by decide)]
  have hspace := dropWhile_withReturns_cases (p := isSpace) (by decide) (by decide)
    (s.dropWhile isNameChar)
  rw [← dropWhile_withReturns (p := isNameChar) (by decide)] at hspace
  have hextends := extendsType_withReturns ((s.dropWhile isNameChar).dropWhile isSpace)
  rw [← dropWhile_withReturns (p := isSpace) (by decide),
    ← dropWhile_withReturns (p := isNameChar) (by decide)] at hextends
  simp only [opensElement, hname, hhead, hextends]
  rcases hspace with ⟨hdrop, hdrop'⟩ | ⟨d, rest, hdrop, hdrop'⟩
  · simp only [hdrop, hdrop']
  · simp only [hdrop, hdrop']
    split_ifs
    · rfl
    · rfl
    · rfl
    · split
      next heq =>
        obtain ⟨rfl, -⟩ := List.cons.inj heq
        rfl
      next heq =>
        obtain ⟨rfl, -⟩ := List.cons.inj heq
        rfl
      next heq =>
        obtain ⟨rfl, rfl⟩ := List.cons.inj heq
        exact closesLater_withReturns _ rest
      next hcomma hequals hangle =>
        split <;> simp_all

/-! ## Line ends -/

/-- Whether code is read at a place, not a template or markup. -/
def readsCode : List Place → Bool
  | .template :: _ => false
  | .children :: _ => false
  | .tag _ :: _ => false
  | .closingTag :: _ => false
  | _ => true

/-- The state behind a line end. Only code takes note of it. -/
def stateAfter (state : State) : State :=
  { state with fresh := state.fresh || readsCode state.places }

lemma codeStep_break (typed : Bool) (state : State) {c : Char} (hc : c = '\n' ∨ c = '\r')
    (rest : List Char) : codeStep typed state c rest = { state := { state with fresh := true } } := by
  rcases hc with rfl | rfl <;> simp [codeStep, isSpace, isTerminator]

lemma rule_break (typed : Bool) (state : State) {c : Char} (hc : c = '\n' ∨ c = '\r')
    (rest : List Char) : rule typed state c rest = { state := stateAfter state } := by
  obtain ⟨places, last, fresh, first⟩ := state
  have hcode := codeStep_break typed ⟨places, last, fresh, first⟩ hc rest
  simp only [rule, stateAfter]
  split
  · rcases hc with rfl | rfl <;> simp [templateStep, readsCode]
  · rcases hc with rfl | rfl <;> simp [childrenStep, readsCode]
  · rcases hc with rfl | rfl <;> simp [tagStep, slashComment?, readsCode]
  · rcases hc with rfl | rfl <;> simp [closingTagStep, readsCode]
  · -- all other places hold code
    simp_all [readsCode]

lemma stateAfter_of_not_readsCode {state : State} (h : readsCode state.places = false) :
    stateAfter state = state := by
  simp [stateAfter, h]

lemma stateAfter_stateAfter (state : State) : stateAfter (stateAfter state) = stateAfter state := by
  simp [stateAfter]

/-! ## Steps -/

section steps

variable (typed : Bool) (state : State) (c : Char) (rest : List Char)

/-- The backslash before a line end takes its first character along, which is the line feed or the
carriage return. -/
lemma agrees_templateStep (h : stateAfter state = state) :
    Agrees (rule typed) rest (templateStep state c rest)
      (templateStep state c (withReturns rest)) := by
  by_cases hescape : c = '\\'
  · simp only [templateStep, if_pos hescape]
    cases rest with
    | nil => exact .of_eq rfl (by simp)
    | cons d rest =>
      by_cases hd : d = '\n'
      · subst hd
        refine .behind rest rfl rfl rfl ?_
        rw [Rule.after, rule_break typed state (.inl rfl), h]
      · exact .of_eq rfl (by simpa using Ne.symm hd)
  · refine .of_eq ?_ ?_
    · simp (disch := decide) only [templateStep, head?_withReturns]
    · simp only [templateStep, if_neg hescape]
      split_ifs with hclose hhole
      · simp
      · exact feed_not_mem_take_one hhole.2 (by decide)
      · simp

lemma agrees_childrenStep :
    Agrees (rule typed) rest (childrenStep state c rest)
      (childrenStep state c (withReturns rest)) := by
  refine .of_eq ?_ ?_
  · simp (disch := decide) only [childrenStep, head?_withReturns]
  · simp only [childrenStep]
    split_ifs with hbrace hclose hopen
    · simp
    · exact feed_not_mem_take_one hclose.2 (by decide)
    · simp
    · simp

lemma slashComment?_withReturns :
    Option.Rel (Agrees (rule typed) rest) (slashComment? state c rest)
      (slashComment? state c (withReturns rest)) := by
  simp (disch := decide) only [slashComment?, head?_withReturns]
  split_ifs with hline hblock
  · have hmore : lineLength (withReturns rest) = lineLength rest := by
      rw [lineLength, takeWhile_withReturns (by decide) (by decide), lineLength]
    rw [hmore]
    exact .some (.of_eq rfl (feed_not_mem_take_takeWhile (by decide) rest))
  · obtain ⟨text, rfl⟩ : ∃ text, rest = '*' :: text := ⟨_, (List.cons_head?_tail hblock.2).symm⟩
    have hmore : 1 + blockLength ((withReturns ('*' :: text)).drop 1) =
        stretch ('*' :: text) (1 + blockLength (('*' :: text).drop 1)) := by
      simp [blockLength_withReturns, Nat.add_comm 1, stretch_succ]
    simp only [hmore, take_stretch, any_withReturns (p := isTerminator) rfl]
    exact .some .even
  · exact .none

/-- An HTML comment stops at the line feed only. -/
lemma agrees_htmlComment :
    Agrees (rule typed) rest { isComment := true, more := htmlLength rest, state }
      { isComment := true, more := htmlLength (withReturns rest), state } :=
  .of_reaches { isComment := true, more := htmlLength rest, state }
    (reaches_takeWhile (by decide) (by decide) rest)
    fun _ => feed_not_mem_take_takeWhile (by decide) rest

lemma agrees_tagStep (depth : Nat) :
    Agrees (rule typed) rest (tagStep depth state c rest)
      (tagStep depth state c (withReturns rest)) := by
  have hslash := slashComment?_withReturns typed state c rest
  unfold tagStep
  generalize slashComment? state c rest = found at hslash ⊢
  generalize slashComment? state c (withReturns rest) = found' at hslash ⊢
  cases hslash with
  | some hstep => exact hstep
  | none =>
    by_cases hquote : c = '\x22' ∨ c = '\x27'
    · have hpass : ('\n' != c) = true ∧ ('\r' != c) = true := by
        rcases hquote with rfl | rfl <;> decide
      have hlength := length_takeWhile_withReturns (p := (· != c)) hpass.1 hpass.2 rest
      have hsucc := stretch_takeWhile_succ (p := (· != c)) hpass.1 rest
      simp only [if_pos hquote, hlength, ← hsucc]
      exact .even
    · refine .of_eq ?_ ?_
      · simp (disch := decide) only [if_neg hquote, head?_withReturns]
      · simp only [if_neg hquote]
        split_ifs with hbrace hclose
        · simp
        · exact feed_not_mem_take_one hclose.2 (by decide)
        · exact feed_not_mem_take_one hclose.2 (by decide)
        all_goals simp

lemma agrees_closingTagStep :
    Agrees (rule typed) rest (closingTagStep state c) (closingTagStep state c) := by
  refine .of_eq rfl ?_
  unfold closingTagStep
  split_ifs <;> simp

lemma feed_not_mem_take_ite {p : Prop} [Decidable p] {rest : List Char} {a b : Step State}
    (ha : p → '\n' ∉ rest.take a.more) (hb : '\n' ∉ rest.take b.more) :
    '\n' ∉ rest.take (if p then a else b).more := by
  split_ifs with hp
  · exact ha hp
  · exact hb

lemma agrees_signStep (hf : c ≠ '\n') (hr : c ≠ '\r') :
    Agrees (rule typed) rest (signStep typed state c rest)
      (signStep typed state c (withReturns rest)) := by
  have hdots : ['.', '.'].isPrefixOf (withReturns rest) = ['.', '.'].isPrefixOf rest :=
    isPrefixOf_withReturns (by decide) (by decide) rest
  have hshift : ['<', '='].isPrefixOf (withReturns rest) = ['<', '='].isPrefixOf rest :=
    isPrefixOf_withReturns (by decide) (by decide) rest
  have hdot := head?_withReturns (s := rest) (c := '.') (by decide) (by decide)
  have hless := head?_withReturns (s := rest) (c := '<') (by decide) (by decide)
  have hequals := head?_withReturns (s := rest) (c := '=') (by decide) (by decide)
  have hangle := head?_withReturns (s := rest) (c := '>') (by decide) (by decide)
  refine .of_eq ?_ ?_
  · simp only [signStep, ne_eq, hdots, hshift, hdot, hless, hequals, hangle,
      head?_withReturns hf hr, regexLength_withReturns, opensElement_withReturns]
  · have hsingle : ∀ after : State, '\n' ∉ rest.take (Step.more { state := after }) := by simp
    unfold signStep
    -- the conditions in their order; most signs are a single character
    iterate 7 refine feed_not_mem_take_ite (fun _ => hsingle _) ?_
    refine feed_not_mem_take_ite (fun h => feed_not_mem_take_of_isPrefixOf h.2 (by decide)) ?_
    refine feed_not_mem_take_ite (fun _ => hsingle _) ?_
    refine feed_not_mem_take_ite (fun h => feed_not_mem_take_one h.2 (by decide)) ?_
    refine feed_not_mem_take_ite (fun h => feed_not_mem_take_one h.2 hf) ?_
    refine feed_not_mem_take_ite (fun _ => hsingle _) ?_
    refine feed_not_mem_take_ite (fun h => feed_not_mem_take_one h.2 (by decide)) ?_
    refine feed_not_mem_take_ite (fun _ => feed_not_mem_take_regexLength false rest) ?_
    refine feed_not_mem_take_ite (fun h => feed_not_mem_take_of_isPrefixOf h.2 (by decide)) ?_
    refine feed_not_mem_take_ite (fun h => feed_not_mem_take_one h.2 (by decide)) ?_
    refine feed_not_mem_take_ite (fun _ => hsingle _) ?_
    exact feed_not_mem_take_ite (fun _ => hsingle _) (hsingle _)

lemma agrees_codeStep (hf : c ≠ '\n') (hr : c ≠ '\r') (h : '\r' ∉ rest) :
    Agrees (rule typed) rest (codeStep typed state c rest)
      (codeStep typed state c (withReturns rest)) := by
  have hslash := slashComment?_withReturns typed state c rest
  simp (disch := decide) only [codeStep, head?_withReturns, isPrefixOf_withReturns]
  generalize slashComment? state c rest = found at hslash ⊢
  generalize slashComment? state c (withReturns rest) = found' at hslash ⊢
  by_cases hspace : isSpace c = true
  · simp only [if_pos hspace]
    exact .of_eq rfl (by simp)
  by_cases hfirst : state.first = true ∧ c = '#' ∧ rest.head? = some '!'
  · simp only [if_neg hspace, if_pos hfirst]
    exact .of_reaches { more := _, state := _ } (reaches_takeWhile (by decide) (by decide) rest)
      nofun
  simp only [if_neg hspace, if_neg hfirst]
  cases hslash with
  | some hstep => exact hstep
  | none =>
    simp only [any_head?_withReturns (p := Char.isDigit) rfl rfl]
    have hword := takeWhile_withReturns (p := isWordChar) (by decide) (by decide) rest
    have hnumber := takeWhile_withReturns (p := fun c => isWordChar c || c == '.') (by decide)
      (by decide) rest
    split_ifs with hopen hclose hquote htemplate hdigit hletter
    · exact agrees_htmlComment typed state rest
    · exact agrees_htmlComment typed state rest
    · exact .of_reaches { more := _, state := _ } (reaches_quotedLength hf hr h) nofun
    · exact .of_eq rfl (by simp)
    · refine .of_eq ?_ (feed_not_mem_take_takeWhile (by decide) rest)
      simp only [numberLength, hnumber]
    · have htake := feed_not_mem_take_takeWhile (p := isWordChar) (by decide) rest
      refine .of_eq ?_ htake
      simp only [wordLength, hword, take_withReturns_of_not_mem htake]
    · exact agrees_signStep typed state c rest hf hr

end steps

/-- The comments of JavaScript and of TypeScript do not depend on line ends. -/
theorem ignoresReturns (typed : Bool) : IgnoresReturns (rule typed) fun _ => True where
  good _ _ _ _ := trivial
  breaks state c rest _ hc := by
    rw [Rule.after, rule_break typed state hc, rule_break typed state hc]
  after_return state _ := by
    simp only [Rule.after, rule_break typed _ (.inl rfl), rule_break typed _ (.inr rfl),
      stateAfter_stateAfter]
  agrees state c rest _ hf hr hrest := by
    simp only [rule]
    split
    next outer heq =>
      have hreads : readsCode state.places = false := by rw [heq, readsCode]
      exact agrees_templateStep typed state c rest (stateAfter_of_not_readsCode hreads)
    · exact agrees_childrenStep typed state c rest
    · exact agrees_tagStep typed state c rest _
    · exact agrees_closingTagStep typed state c rest
    · exact agrees_codeStep typed state c rest hf hr hrest

end Foldmark.Comment.JavaScript
