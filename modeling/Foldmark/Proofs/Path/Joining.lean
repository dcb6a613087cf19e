import Foldmark.Ignore.Filter
import Mathlib.Data.List.Basic

/-!
# Paths of entries

The path of an entry is the path of its folder, a slash and the names on the way. Cut at its slashes
it is the segments of the folder (`Path.stem`) and the names, so nothing about the folder is lost or
changed: taking the folder off gives the names back, and two entries of one folder are ordered as
their names are.
-/
namespace Foldmark

namespace Path

/-! ## Segments -/

lemma segments_ne_nil (octets : List UInt8) : segments octets ≠ [] := by
  cases octets with
  | nil => simp [segments]
  | cons b rest =>
    simp only [segments]
    split_ifs
    · simp
    · split <;> simp

lemma segments_append_slash (a b : List UInt8) :
    segments (a ++ slash :: b) = segments a ++ segments b := by
  induction a with
  | nil => simp [segments]
  | cons c a ih =>
    simp only [List.cons_append, segments, ih]
    split_ifs
    · simp
    · obtain ⟨first, more, hfirst⟩ := List.exists_cons_of_ne_nil (segments_ne_nil a)
      simp [hfirst]

lemma segments_of_not_mem {octets : List UInt8} (h : slash ∉ octets) :
    segments octets = [octets] := by
  induction octets with
  | nil => rfl
  | cons b rest ih =>
    rw [List.mem_cons, not_or] at h
    simp [segments, ih h.2, Ne.symm h.1]

/-- The segments of a folder in front of those of an entry: a slash at the end begins no segment of
its own. -/
def stem (path : Path) : List (List UInt8) :=
  if path.octets = [] ∨ path.octets.getLast? = some slash then (segments path.octets).dropLast
  else segments path.octets

lemma segments_eq_stem (path : Path) :
    segments path.octets = path.stem ∨ segments path.octets = path.stem ++ [[]] := by
  unfold stem
  split_ifs with h
  · right
    rcases h with h | h
    · simp [h, segments]
    · obtain ⟨front, hfront⟩ := List.getLast?_eq_some_iff.mp h
      rw [hfront, segments_append_slash, segments_of_not_mem (List.not_mem_nil)]
      simp
  · exact .inl rfl

lemma stem_ne_nil {path : Path} (h : path.octets ≠ []) : path.stem ≠ [] := by
  unfold stem
  split_ifs with hend
  · obtain ⟨front, hfront⟩ := List.getLast?_eq_some_iff.mp (hend.resolve_left h)
    rw [hfront, segments_append_slash, segments_of_not_mem (List.not_mem_nil)]
    simpa using segments_ne_nil front
  · exact segments_ne_nil _

/-! ## Entries -/

lemma octets_join {name : List UInt8} (h : IsName name) (folder : Path) :
    (folder.join name).octets =
      if folder.octets = [] ∨ folder.octets.getLast? = some slash then folder.octets ++ name
      else folder.octets ++ slash :: name := by
  have hhead : name.head? ≠ some slash := fun he => h.slash_not_mem (List.mem_of_head? he)
  simp only [join, hhead, if_false]
  split_ifs <;> rfl

lemma segments_join {name : List UInt8} (h : IsName name) (folder : Path) :
    segments (folder.join name).octets = folder.stem ++ [name] := by
  have hname := segments_of_not_mem h.slash_not_mem
  rw [octets_join h, stem]
  split_ifs with hend
  · rcases hend with hnil | hslash
    · simp [hnil, hname, segments]
    · obtain ⟨front, hfront⟩ := List.getLast?_eq_some_iff.mp hslash
      rw [hfront, segments_append_slash front [], List.append_assoc, List.singleton_append,
        segments_append_slash, hname, segments_of_not_mem List.not_mem_nil]
      simp
  · rw [segments_append_slash, hname]

lemma stem_join {name : List UInt8} (h : IsName name) (folder : Path) :
    (folder.join name).stem = folder.stem ++ [name] := by
  have hlast : (folder.join name).octets.getLast? = name.getLast? := by
    obtain ⟨front, b, rfl⟩ := (List.eq_nil_or_concat' name).resolve_left h.ne_nil
    rw [octets_join h]
    split_ifs
    · simp [List.getLast?_append]
    · rw [List.append_cons, ← List.append_assoc, List.getLast?_append]
      simp
  have hend : ¬ ((folder.join name).octets = [] ∨
      (folder.join name).octets.getLast? = some slash) := by
    rw [hlast]
    rintro (hnil | hslash)
    · rw [hnil, List.getLast?_nil, eq_comm, List.getLast?_eq_none_iff] at hlast
      exact h.ne_nil hlast
    · exact h.slash_not_mem (List.mem_of_getLast? hslash)
  rw [stem, if_neg hend, segments_join h]

variable {names : List (List UInt8)}

@[simp] lemma joinAll_nil (folder : Path) : folder.joinAll [] = folder := rfl

@[simp] lemma joinAll_cons (folder : Path) (name : List UInt8) (names : List (List UInt8)) :
    folder.joinAll (name :: names) = (folder.join name).joinAll names := rfl

lemma joinAll_concat (folder : Path) (names : List (List UInt8)) (name : List UInt8) :
    folder.joinAll (names ++ [name]) = (folder.joinAll names).join name := by
  simp [joinAll]

lemma stem_joinAll (h : ∀ name ∈ names, IsName name) (folder : Path) :
    (folder.joinAll names).stem = folder.stem ++ names := by
  induction names generalizing folder with
  | nil => simp
  | cons name names ih =>
    rw [joinAll_cons, ih fun n hn => h n (List.mem_cons_of_mem _ hn),
      stem_join (h name List.mem_cons_self), List.append_assoc, List.singleton_append]

lemma segments_joinAll (h : ∀ name ∈ names, IsName name) (hne : names ≠ []) (folder : Path) :
    segments (folder.joinAll names).octets = folder.stem ++ names := by
  obtain ⟨front, name, rfl⟩ := (List.eq_nil_or_concat' names).resolve_left hne
  rw [joinAll_concat, segments_join (h name (by simp)),
    stem_joinAll fun n hn => h n (by simp [hn]), List.append_assoc]

/-- The first octet of a folder is that of its entries. -/
lemma head?_joinAll (h : ∀ name ∈ names, IsName name) {folder : Path} (hf : folder.octets ≠ []) :
    (folder.joinAll names).octets.head? = folder.octets.head? := by
  induction names generalizing folder with
  | nil => rfl
  | cons name names ih =>
    have hjoin : (folder.join name).octets.head? = folder.octets.head? := by
      obtain ⟨b, rest, hb⟩ := List.exists_cons_of_ne_nil hf
      rw [octets_join (h name List.mem_cons_self), hb]
      split_ifs <;> rfl
    have hne : (folder.join name).octets ≠ [] := by
      intro hnil
      rw [hnil] at hjoin
      exact hf (List.head?_eq_none_iff.mp hjoin.symm)
    rw [joinAll_cons, ih (fun n hn => h n (List.mem_cons_of_mem _ hn)) hne, hjoin]

lemma joinAll_ne_nil (h : ∀ name ∈ names, IsName name) {folder : Path} (hf : folder.octets ≠ []) :
    (folder.joinAll names).octets ≠ [] := by
  intro hnil
  have hhead := head?_joinAll h hf
  rw [hnil, List.head?_nil, eq_comm, List.head?_eq_none_iff] at hhead
  exact hf hhead

lemma nul_not_mem_joinAll (h : ∀ name ∈ names, IsName name) {folder : Path}
    (hf : 0 ∉ folder.octets) : 0 ∉ (folder.joinAll names).octets := by
  induction names generalizing folder with
  | nil => exact hf
  | cons name names ih =>
    have hname := h name List.mem_cons_self
    refine ih (fun n hn => h n (List.mem_cons_of_mem _ hn)) ?_
    rw [octets_join hname]
    split_ifs <;> simp [hf, hname.nul_not_mem, slash]

/-! ## Parts -/

lemma part?_of_isName {name : List UInt8} (h : IsName name) : part? name = some (.name name) := by
  simp [part?, h.ne_nil, h.ne_dot, h.ne_up]

lemma part?_cases (segment : List UInt8) :
    part? segment = none ∨ part? segment = some .up ∨ part? segment = some (.name segment) := by
  unfold part?
  split_ifs <;> simp

lemma filterMap_part? (h : ∀ name ∈ names, IsName name) :
    names.filterMap part? = names.map Part.name := by
  rw [← List.filterMap_eq_map]
  exact List.filterMap_congr fun name hn => part?_of_isName (h name hn)

lemma front_eq {path : Path} {b : UInt8} {first : List UInt8} {more : List (List UInt8)}
    (hb : path.octets.head? = some b) (hs : segments path.octets = first :: more) :
    path.front = if b = slash then (some .root, more)
      else if first = [dot] then (some .here, more) else (none, first :: more) := by
  obtain ⟨rest, hrest⟩ := List.head?_eq_some_iff.mp hb
  rw [hrest] at hs
  simp [front, hrest, hs]

/-- The leading part of a folder is that of its entries, and the names follow the segments of the
folder. -/
lemma front_joinAll (h : ∀ name ∈ names, IsName name) (hne : names ≠ []) {folder : Path}
    (hf : folder.octets ≠ []) :
    ∃ inner, (folder.front.2 = inner ∨ folder.front.2 = inner ++ [[]]) ∧
      (folder.joinAll names).front = (folder.front.1, inner ++ names) := by
  obtain ⟨b, hb⟩ := Option.ne_none_iff_exists'.mp (mt List.head?_eq_none_iff.mp hf)
  obtain ⟨first, more, hstem⟩ := List.exists_cons_of_ne_nil (stem_ne_nil hf)
  have hentry := front_eq ((head?_joinAll h hf).trans hb)
    (by rw [segments_joinAll h hne, hstem]; exact List.cons_append)
  have hfolder : ∃ last, (last = [] ∨ last = [[]]) ∧
      segments folder.octets = first :: (more ++ last) := by
    rcases folder.segments_eq_stem with hs | hs
    · exact ⟨[], .inl rfl, by simp [hs, hstem]⟩
    · exact ⟨[[]], .inr rfl, by simp [hs, hstem]⟩
  obtain ⟨last, hlast, hsegments⟩ := hfolder
  rw [hentry, front_eq hb hsegments]
  split_ifs
  · exact ⟨more, by rcases hlast with rfl | rfl <;> simp, rfl⟩
  · exact ⟨more, by rcases hlast with rfl | rfl <;> simp, rfl⟩
  · exact ⟨first :: more, by rcases hlast with rfl | rfl <;> simp, rfl⟩

lemma parts_joinAll (h : ∀ name ∈ names, IsName name) {folder : Path} (hf : folder.octets ≠ []) :
    (folder.joinAll names).parts = folder.parts ++ names.map Part.name := by
  by_cases hne : names = []
  · simp [hne]
  · obtain ⟨inner, hinner, hfront⟩ := front_joinAll h hne hf
    have hskip : folder.front.2.filterMap part? = inner.filterMap part? := by
      rcases hinner with hi | hi <;> simp [hi, part?]
    simp [parts, hfront, hskip, filterMap_part? h]

/-- Entries with different names have different paths. -/
lemma joinAll_injective {a b : List (List UInt8)} (ha : ∀ name ∈ a, IsName name)
    (hb : ∀ name ∈ b, IsName name) {folder : Path} (hf : folder.octets ≠ [])
    (h : folder.joinAll a = folder.joinAll b) : a = b := by
  have hparts := congrArg parts h
  rw [parts_joinAll ha hf, parts_joinAll hb hf] at hparts
  exact List.map_injective_iff.mpr (fun _ _ => Part.name.inj) (List.append_cancel_left hparts)

/-- The language of an entry is told from its last name. -/
lemma language?_joinAll (h : ∀ name ∈ names, IsName name) (hne : names ≠ []) {folder folder' : Path}
    (hf : folder.octets ≠ []) (hf' : folder'.octets ≠ []) :
    (folder.joinAll names).language? = (folder'.joinAll names).language? := by
  have hmap : names.map Part.name ≠ [] := by simpa using hne
  simp only [language?, extension?, fileName?, parts_joinAll h hf, parts_joinAll h hf',
    List.getLast?_append_of_ne_nil _ hmap]

/-! ## Below a folder -/

lemma isSkipped_of_isName {name : List UInt8} (h : IsName name) : isSkipped name = false := by
  simp [isSkipped, part?_of_isName h]

lemma dropWhile_isSkipped (h : ∀ name ∈ names, IsName name) :
    names.dropWhile isSkipped = names := by
  cases names with
  | nil => rfl
  | cons name names => simp [isSkipped_of_isName (h name List.mem_cons_self)]

lemma dropSkippedEnd_names (h : ∀ name ∈ names, IsName name) : dropSkippedEnd names = names := by
  rw [dropSkippedEnd, dropWhile_isSkipped fun name hn => h name (List.mem_reverse.mp hn),
    List.reverse_reverse]

/-- Taking the parts of leading segments off leaves what follows them, up to segments that stand for
no part. -/
lemma stripParts?_append (inner names : List (List UInt8)) :
    ∃ left, stripParts? (inner.filterMap part?) (inner ++ names) = some left ∧
      left.dropWhile isSkipped = names.dropWhile isSkipped := by
  induction inner with
  | nil => exact ⟨names, by simp [stripParts?], rfl⟩
  | cons segment inner ih =>
    obtain ⟨left, hleft, hdrop⟩ := ih
    cases hpart : part? segment with
    | some part => exact ⟨left, by simpa [stripParts?, hpart] using hleft, hdrop⟩
    | none =>
      rw [List.filterMap_cons_none hpart, List.cons_append]
      cases hparts : inner.filterMap part? with
      | nil =>
        rw [hparts] at hleft
        refine ⟨segment :: left, by simp_all [stripParts?], ?_⟩
        simpa [isSkipped, hpart] using hdrop
      | cons part parts =>
        rw [hparts] at hleft
        exact ⟨left, by simpa [stripParts?, hpart] using hleft, hdrop⟩

/-- An entry lies below its folder at its names. -/
lemma below?_joinAll (h : ∀ name ∈ names, IsName name) (hne : names ≠ []) {folder : Path}
    (hf : folder.octets ≠ []) :
    (folder.joinAll names).below? folder = some ⟨joinSegments names⟩ := by
  obtain ⟨inner, hinner, hfront⟩ := front_joinAll h hne hf
  obtain ⟨left, hleft, hdrop⟩ := stripParts?_append inner names
  have hskip : folder.front.2.filterMap part? = inner.filterMap part? := by
    rcases hinner with hi | hi <;> simp [hi, part?]
  have hnames : dropSkippedEnd (left.dropWhile isSkipped) = names := by
    rw [hdrop, dropWhile_isSkipped h, dropSkippedEnd_names h]
  have hfolder : folder.front = (folder.front.1, folder.front.2) := rfl
  rw [below?, hfront, hfolder]
  cases folder.front.1 with
  | none => simp only [hskip, hleft, Option.map_some, hnames]
  | some lead => simp only [if_true, hskip, hleft, Option.map_some, hnames]

/-! ## Order -/

/-- A part as octets that are ordered as parts are. -/
def Part.key (part : Part) : List UInt8 := part.rank.toUInt8 :: part.octets

lemma octetsLe_iff (a b : List UInt8) : octetsLe a b = true ↔ a ≤ b := by
  induction a generalizing b with
  | nil => simp [octetsLe]
  | cons x a ih =>
    cases b with
    | nil => simp [octetsLe]
    | cons y b => simp [octetsLe, List.cons_le_cons_iff, ih]

lemma Part.key_injective {a b : Part} (h : a.key = b.key) : a = b := by
  cases a <;> cases b <;> simp_all [key, rank, octets]

lemma Part.le_iff (a b : Part) : a.le b = true ↔ a.key ≤ b.key := by
  simp only [Part.le, Bool.or_eq_true, Bool.and_eq_true, octetsLe_iff, Part.key,
    List.cons_le_cons_iff, decide_eq_true_eq, beq_iff_eq]
  cases a <;> cases b <;> simp [rank]

lemma partsLe_iff (a b : List Part) : partsLe a b = true ↔ a.map Part.key ≤ b.map Part.key := by
  induction a generalizing b with
  | nil => simp [partsLe]
  | cons x a ih =>
    cases b with
    | nil => simp [partsLe]
    | cons y b =>
      rw [partsLe, List.map_cons, List.map_cons, List.cons_le_cons_iff]
      split_ifs with hxy
      · simp [hxy, ih, List.lt_irrefl]
      · have hkey : x.key ≠ y.key := fun hk => hxy (Part.key_injective hk)
        simp [Part.le_iff, List.le_iff_lt_or_eq, hkey]

lemma le_total (a b : Path) : (a.le b || b.le a) = true := by
  simp only [le, Bool.or_eq_true, partsLe_iff]
  exact List.le_total _ _

lemma le_trans (a b c : Path) (hab : a.le b = true) (hbc : b.le c = true) : a.le c = true := by
  simp only [le, partsLe_iff] at hab hbc ⊢
  exact List.le_trans hab hbc

lemma map_key_le_iff (a b : List (List UInt8)) :
    (a.map Part.name).map Part.key ≤ (b.map Part.name).map Part.key ↔ a ≤ b := by
  induction a generalizing b with
  | nil => simp
  | cons x a ih =>
    cases b with
    | nil => simp
    | cons y b =>
      have hlt : (Part.name x).key < (Part.name y).key ↔ x < y := by
        simp [Part.key, Part.rank, Part.octets]
      have heq : (Part.name x).key = (Part.name y).key ↔ x = y := by
        simp [Part.key, Part.rank, Part.octets]
      simp only [List.map_cons, List.cons_le_cons_iff, hlt, heq, ih]

/-- Entries of one folder are ordered as their names. -/
lemma le_joinAll_iff {a b : List (List UInt8)} (ha : ∀ name ∈ a, IsName name)
    (hb : ∀ name ∈ b, IsName name) {folder : Path} (hf : folder.octets ≠ []) :
    (folder.joinAll a).le (folder.joinAll b) = true ↔ a ≤ b := by
  rw [le, parts_joinAll ha hf, parts_joinAll hb hf, partsLe_iff, List.map_append, List.map_append]
  induction folder.parts with
  | nil => exact map_key_le_iff a b
  | cons part parts ih => simpa [List.cons_le_cons_iff, List.lt_irrefl] using ih

end Path

end Foldmark
