import Foldmark.Proofs.Marker.Signs
import Mathlib.Data.List.Permutation

/-!
# Comment styles

A text says the same in every style of comment. Signs are tried in order and some begin like others,
so a style fits a recognizer (`CommentStyle.Fits`) if of the signs that begin its opener the opener
itself comes first, and likewise for the closer. With a blank between sign and text these signs are
then taken off, whatever the text is: it may begin like a sign or hold one, as long as it does not end
with a closer.
-/
namespace Foldmark

open Text (isBlank IsTrimmed FrontClear BackClear withoutStart withoutEnd)

inductive CommentStyle where
  /-- A comment that ends with its line. -/
  | line (opener : String)
  | block (opener closer : String)
  deriving Repr, DecidableEq

namespace CommentStyle

/-- The comment in this style that says a text, with one blank between text and sign. -/
def comment (style : CommentStyle) (text : String) : String :=
  match style with
  | .line opener => opener ++ " " ++ text
  | .block opener closer => opener ++ " " ++ text ++ " " ++ closer

def opener : CommentStyle → List Char
  | .line opener => opener.toList
  | .block opener _ => opener.toList

/-- What follows the text in a comment of this style. -/
def ending : CommentStyle → List Char
  | .line _ => []
  | .block _ closer => ' ' :: closer.toList

lemma toList_comment (style : CommentStyle) (text : String) :
    (style.comment text).toList = style.opener ++ ' ' :: text.toList ++ style.ending := by
  cases style <;> simp [comment, opener, ending]

/-- Of the signs that end the closer, the closer itself is tried first. -/
def ClosesFirst (closers : List (List Char)) : CommentStyle → Prop
  | .line _ => True
  | .block _ closer =>
    BackClear (' ' :: closer.toList) ∧
      closers.find? (fun sign => sign <:+ closer.toList) = some closer.toList

instance (closers : List (List Char)) (style : CommentStyle) :
    Decidable (style.ClosesFirst closers) :=
  match style with
  | .line _ => inferInstanceAs (Decidable True)
  | .block _ _ => inferInstanceAs (Decidable (_ ∧ _))

/-- The signs of the style are those that are taken off. No sign of any style reaches over a blank. -/
structure Fits (openers closers : List (List Char)) (style : CommentStyle) : Prop where
  ne_nil : style.opener ≠ []
  trimmed : IsTrimmed style.opener
  opens : openers.find? (fun sign => sign <+: style.opener) = some style.opener
  closes : style.ClosesFirst closers
  openers_unspaced : ∀ sign ∈ openers, ' ' ∉ sign
  closers_unspaced : ∀ sign ∈ closers, ' ' ∉ sign

instance (openers closers : List (List Char)) (style : CommentStyle) :
    Decidable (style.Fits openers closers) :=
  decidable_of_iff
    (style.opener ≠ [] ∧ IsTrimmed style.opener ∧
      openers.find? (fun sign => sign <+: style.opener) = some style.opener ∧
        style.ClosesFirst closers ∧ (∀ sign ∈ openers, ' ' ∉ sign) ∧ ∀ sign ∈ closers, ' ' ∉ sign)
    ⟨fun ⟨h₁, h₂, h₃, h₄, h₅, h₆⟩ => ⟨h₁, h₂, h₃, h₄, h₅, h₆⟩,
      fun ⟨h₁, h₂, h₃, h₄, h₅, h₆⟩ => ⟨h₁, h₂, h₃, h₄, h₅, h₆⟩⟩

end CommentStyle

namespace Recognizer

variable {r : Recognizer} {style : CommentStyle}

lemma trim_withoutEnd_ending (h : style.Fits r.openers r.closers) {s : List Char}
    (hs : ∀ sign ∈ r.closers, ¬ sign <:+ s) :
    Text.trim (withoutEnd r.closers (s ++ style.ending)) = Text.trim s := by
  cases style with
  | line opener => rw [CommentStyle.ending, List.append_nil, Text.withoutEnd_eq_self hs]
  | block opener closer =>
    rw [CommentStyle.ending, Text.withoutEnd_append h.closers_unspaced h.closes.2,
      Text.trim_concat_blank (by decide)]

lemma backClear_append_ending (h : style.Fits r.openers r.closers) {s : List Char} (hs : BackClear s) :
    BackClear (s ++ style.ending) := by
  cases style with
  | line opener => simpa [CommentStyle.ending] using hs
  | block opener closer => exact Text.backClear_append hs h.closes.1

/-- A comment says the text between its signs, with any blanks around the comment. -/
theorem content_comment (h : style.Fits r.openers r.closers) {text : String}
    (htext : IsTrimmed text.toList) (hend : ∀ sign ∈ r.closers, ¬ sign <:+ text.toList)
    {before after : List Char} (hbefore : ∀ c ∈ before, isBlank c = true)
    (hafter : ∀ c ∈ after, isBlank c = true) :
    r.content (Text.trim (before ++ (style.comment text).toList ++ after)) = text.toList := by
  rw [Text.trim_between_blanks hbefore hafter, style.toList_comment]
  by_cases hnil : text.toList ++ style.ending = []
  · -- the blank behind the opener is trimmed away
    obtain ⟨htext, hending⟩ := List.append_eq_nil_iff.mp hnil
    have htrim : Text.trim (style.opener ++ [' '] ++ []) = style.opener ++ [] := by
      rw [List.append_nil, List.append_nil, Text.trim_concat_blank (by decide),
        Text.trim_of_isTrimmed h.trimmed]
    rw [htext, hending, htrim, content_eq,
      Text.withoutStart_append h.openers_unspaced (by simp) h.opens, Text.withoutEnd_nil]
    rfl
  · have htrim : IsTrimmed (style.opener ++ ' ' :: text.toList ++ style.ending) := by
      refine ⟨?_, ?_⟩
      · rw [List.append_assoc]
        exact (Text.frontClear_append_iff h.ne_nil).mpr h.trimmed.front
      · rw [List.append_cons, List.append_assoc, Text.backClear_append_iff hnil]
        exact backClear_append_ending h htext.back
    have hblank : ∀ sign ∈ r.closers, ¬ sign <:+ [] ++ ' ' :: text.toList := fun sign hsign =>
      Text.not_suffix_append_cons (h.closers_unspaced sign hsign) (hend sign hsign)
    rw [List.nil_append] at hblank
    rw [Text.trim_of_isTrimmed htrim, List.append_assoc, content_eq,
      Text.withoutStart_append h.openers_unspaced (by simp) h.opens,
      trim_withoutEnd_ending h hblank, Text.trim_cons_blank (by decide),
      Text.trim_of_isTrimmed htext]

lemma parseLine_of_content_eq {s t : String}
    (h : r.content (Text.trim s.toList) = r.content (Text.trim t.toList)) (line : Nat) :
    r.parseLine line s = r.parseLine line t := by
  simp only [parseLine, h]

end Recognizer

/-! ## Standard styles -/

/-- Default signs, keywords and sentinel. -/
def Settings.standard (caseSensitive foldAll : Bool) : Settings :=
  { caseSensitive := caseSensitive, foldAllByDefault := foldAll }

/-- The styles that the default signs are made for. -/
def CommentStyle.standard : List CommentStyle :=
  [.line "#", .line "//", .line "///", .line "//!", .line "--", .line ";", .line "*",
    .block "/*" "*/", .block "/**" "*/", .block "<!--" "-->"]

lemma CommentStyle.fits_standard :
    ∀ style ∈ standard,
      style.Fits (Recognizer.ofSettings {}).openers (Recognizer.ofSettings {}).closers := by
  decide

namespace Marker

open Recognizer

/-- It does not matter in which style a comment is written: in every style it says the text, and so
it gives the marker that the text gives in the first one. -/
theorem parse_styles (caseSensitive foldAll : Bool) (line : Nat) (text : String)
    (htext : IsTrimmed text.toList) (hend : ∀ sign ∈ ["*/", "-->"], ¬ sign.toList <:+ text.toList)
    (style : CommentStyle) (hstyle : style ∈ CommentStyle.standard) (before after : String)
    (hbefore : ∀ c ∈ before.toList, isBlank c = true)
    (hafter : ∀ c ∈ after.toList, isBlank c = true) :
    (ofSettings (.standard caseSensitive foldAll)).content
          (Text.trim (before ++ style.comment text ++ after).toList) = text.toList ∧
      Marker.parse? (.standard caseSensitive foldAll) line (before ++ style.comment text ++ after) =
        Marker.parse? (.standard caseSensitive foldAll) line ("# " ++ text) := by
  let r := ofSettings (.standard caseSensitive foldAll)
  have hsigns : ∀ sign ∈ r.closers, ¬ sign <:+ text.toList := by
    intro sign hsign
    have hmem : sign ∈ ["*/", "-->"].map String.toList := hsign
    obtain ⟨word, hword, rfl⟩ := List.mem_map.mp hmem
    exact hend word hword
  have hcontent : ∀ style ∈ CommentStyle.standard, ∀ before after : List Char,
      (∀ c ∈ before, isBlank c = true) → (∀ c ∈ after, isBlank c = true) →
        r.content (Text.trim (before ++ (style.comment text).toList ++ after)) = text.toList := by
    intro style hstyle before after hbefore hafter
    have hfits := CommentStyle.fits_standard style hstyle
    exact content_comment (r := r) hfits htext hsigns hbefore hafter
  have hfirst := hcontent (.line "#") (by decide) [] [] (by simp) (by simp)
  rw [List.append_nil, List.nil_append] at hfirst
  have hstyled := hcontent style hstyle _ _ hbefore hafter
  rw [← String.toList_append, ← String.toList_append] at hstyled
  exact ⟨hstyled, parseLine_of_content_eq (r := r) (hstyled.trans hfirst.symm) line⟩

/-- A text that looks like a sign and holds signs and sentinels, in a comment between blanks. -/
theorem parse_styles_markup :
    IsTrimmed "#region * --> a/ +".toList ∧ CommentStyle.block "<!--" "-->" ∈ CommentStyle.standard ∧
      Marker.parse? (.standard true false) 4 "\t<!-- #region * --> a/ + -->\r" =
        some ⟨4, .start, some "* --> a/", true⟩ := by
  have htext : IsTrimmed "#region * --> a/ +".toList := by decide
  have hstyle : CommentStyle.block "<!--" "-->" ∈ CommentStyle.standard := by decide
  have hstyled := (parse_styles true false 4 "#region * --> a/ +" htext (by decide) _ hstyle "\t" "\r"
    (List.forall_mem_singleton.mpr (by decide)) (List.forall_mem_singleton.mpr (by decide))).2
  exact ⟨htext, hstyle, hstyled.trans (by cbv)⟩

end Marker

end Foldmark
