import Foldmark.Proofs.Path.Joining
import Foldmark.Volume

/-!
# Where paths lead

A listed file lies below folders only, and nothing lies below it. So a path that leads to a folder,
continued by the names from there to a file, leads to the file: the way through the folder is the
same, links on it included, and no link is met behind it.
-/
namespace Foldmark

/-! ## Listed nodes -/

namespace Sound

variable {nodes : List (List (List UInt8) × Node)}

lemma isName (sound : Sound nodes) {entry : List (List UInt8) × Node} (h : entry ∈ nodes) :
    ∀ name ∈ entry.1, IsName name := by
  induction sound with
  | nil => simp at h
  | cons fits _ ih =>
    rcases List.mem_cons.mp h with rfl | h
    · exact fits.2.1
    · exact ih h

/-- Nothing but itself is listed at or below a node that is no folder. -/
lemma eq_of_isPrefix (sound : Sound nodes) {a b : List (List UInt8) × Node} (ha : a ∈ nodes)
    (hb : b ∈ nodes) (h : a.1 <+: b.1) (hleaf : a.2 ≠ .folder) : a = b := by
  induction sound with
  | nil => simp at ha
  | cons fits _ ih =>
    rcases List.mem_cons.mp ha with rfl | ha <;> rcases List.mem_cons.mp hb with rfl | hb
    · rfl
    · exact absurd ((fits.2.2 b hb).2.2 h) hleaf
    · exact absurd ((fits.2.2 a ha).2.1 h) hleaf
    · exact ih ha hb

lemma lookup_eq_some_iff (sound : Sound nodes) {names : List (List UInt8)} {node : Node} :
    nodes.lookup names = some node ↔ (names, node) ∈ nodes := by
  induction sound with
  | nil => simp
  | @cons nodes names' node' fits _ ih =>
    rw [List.lookup_cons]
    by_cases he : names = names'
    · subst he
      have hfree : (names, node) ∉ nodes := fun hmem => (fits.2.2 _ hmem).1 rfl
      simp [hfree, eq_comm]
    · have hb : (names == names') = false := by simpa using he
      simp [hb, ih, he]

end Sound

namespace Volume

variable {volume : Volume} {names : List (List UInt8)} {node : Node}

lemma node?_eq_some_iff (hleaf : node ≠ .folder) :
    volume.node? names = some node ↔ (names, node) ∈ volume.nodes := by
  rw [← volume.sound.lookup_eq_some_iff, node?]
  cases volume.nodes.lookup names with
  | some found => simp
  | none =>
    simp only [reduceCtorEq, iff_false]
    split_ifs <;> simp [Ne.symm hleaf]

/-- What is on the way to a node is a folder. -/
lemma node?_of_isPrefix {full : List (List UInt8)} (hnode : (full, node) ∈ volume.nodes)
    (hlead : names <+: full) (hne : names ≠ full) : volume.node? names = some .folder := by
  by_contra h
  cases hlookup : volume.nodes.lookup names with
  | none =>
    have hany : volume.nodes.any (fun entry => names.isPrefixOf entry.1) = true :=
      List.any_eq_true.mpr ⟨_, hnode, List.isPrefixOf_iff_prefix.mpr hlead⟩
    simp [node?, hlookup, hany] at h
  | some found =>
    have hleaf : found ≠ .folder := by
      rintro rfl
      simp [node?, hlookup] at h
    have hmem := volume.sound.lookup_eq_some_iff.mp hlookup
    exact hne (congrArg Prod.fst (volume.sound.eq_of_isPrefix hmem hnode hlead hleaf))

/-! ## One segment of a path -/

lemma place_eq_ok {follow : Bool} {path : Path} {place : Place}
    (h : volume.place follow path = .ok place) :
    path.octets ≠ [] ∧ 0 ∉ path.octets ∧
      volume.walk follow linkLimit (if path.octets.head? = some Path.slash then [] else volume.here)
        (Path.segments path.octets) = .ok place := by
  unfold Volume.place at h
  split_ifs at h with hnil hnul
  all_goals exact ⟨hnil, by simpa using hnul, by simp [*]⟩

/-- What a segment does with others behind it: the links that are left, the folder to go on from, and
segments that come before the others. -/
def enter (volume : Volume) (links : Nat) (folder : List (List UInt8)) (segment : List UInt8) :
    Except Trouble (Nat × List (List UInt8) × List (List UInt8)) :=
  match Path.part? segment with
  | none => .ok (links, folder, [])
  | some .up => .ok (links, folder.dropLast, [])
  | some _ =>
    if nameLimit < segment.length then .error .longName
    else
      match volume.node? (folder ++ [segment]) with
      | none => .error .notFound
      | some .folder => .ok (links, folder ++ [segment], [])
      | some (.file _) => .error .notFolder
      | some (.link target) =>
        match links with
        | 0 => .error .linkLoop
        | links + 1 =>
          .ok (links, if target.octets.head? = some Path.slash then [] else folder,
            Path.segments target.octets)

lemma walk_cons (follow : Bool) (links : Nat) (folder : List (List UInt8)) (segment : List UInt8)
    {rest : List (List UInt8)} (hrest : rest ≠ []) :
    volume.walk follow links folder (segment :: rest) =
      match volume.enter links folder segment with
      | .ok (links, folder, inner) => volume.walk follow links folder (inner ++ rest)
      | .error trouble => .error trouble := by
  have hempty : rest.isEmpty = false := by simpa using hrest
  rw [walk, enter]
  rcases Path.part?_cases segment with hpart | hpart | hpart
  · simp [hpart]
  · simp [hpart]
  · by_cases hlong : nameLimit < segment.length
    · simp [hpart, hlong]
    · cases hnode : volume.node? (folder ++ [segment]) with
      | none => simp [hpart, hlong, hnode, hempty]
      | some node =>
        cases node with
        | file => simp [hpart, hlong, hnode, hempty]
        | folder => simp [hpart, hlong, hnode]
        | link target => cases links <;> simp [hpart, hlong, hnode, hempty]

/-- A segment uses up a link, or it adds no segments. -/
lemma enter_cases {links links' : Nat} {folder folder' inner : List (List UInt8)}
    {segment : List UInt8} (h : volume.enter links folder segment = .ok (links', folder', inner)) :
    links' = links ∧ inner = [] ∨ links' < links := by
  unfold enter at h
  split at h
  · simp_all
  · simp_all
  · split_ifs at h
    split at h
    · simp at h
    · simp_all
    · simp at h
    · split at h
      · simp at h
      · right
        simp only [Except.ok.injEq, Prod.mk.injEq] at h
        omega

/-- A segment at the end of a path to a folder. -/
lemma enter_of_walk_singleton {links : Nat} {folder : List (List UInt8)} {segment : List UInt8}
    (h : volume.walk false links folder [segment] = .ok ⟨names, some .folder⟩) :
    volume.enter links folder segment = .ok (links, names, []) := by
  rw [walk] at h
  rw [enter]
  rcases Path.part?_cases segment with hpart | hpart | hpart
  · simpa [hpart, walk] using h
  · simpa [hpart, walk] using h
  · by_cases hlong : nameLimit < segment.length
    · simp [hpart, hlong] at h
    · cases hnode : volume.node? (folder ++ [segment]) with
      | none => simp [hpart, hlong, hnode] at h
      | some node =>
        cases node with
        | file => simp [hpart, hlong, hnode] at h
        | folder => simpa [hpart, hlong, hnode, walk] using h
        | link => simp [hpart, hlong, hnode] at h

/-! ## Paths through a folder -/

/-- What leads to a folder leads through it. -/
lemma walk_append {links : Nat} {folder segments : List (List UInt8)}
    (h : volume.walk false links folder segments = .ok ⟨names, some .folder⟩) :
    ∃ left, ∀ follow more, more ≠ [] →
      volume.walk follow links folder (segments ++ more) = volume.walk follow left names more := by
  match segments, h with
  | [], h =>
    have hnames : folder = names := by simpa [walk] using h
    exact ⟨links, fun _ _ _ => by rw [hnames, List.nil_append]⟩
  | segment :: rest, h =>
    by_cases hrest : rest = []
    · subst hrest
      refine ⟨links, fun follow more hmore => ?_⟩
      rw [List.singleton_append, walk_cons _ _ _ _ hmore, enter_of_walk_singleton h]
      rfl
    · rw [walk_cons _ _ _ _ hrest] at h
      cases henter : volume.enter links folder segment with
      | error => simp [henter] at h
      | ok step =>
        obtain ⟨links', folder', inner⟩ := step
        simp only [henter] at h
        have hcases := enter_cases henter
        have hinner : inner = [] → (inner ++ rest).length ≤ rest.length := by simp +contextual
        obtain ⟨left, hleft⟩ := walk_append h
        refine ⟨left, fun follow more hmore => ?_⟩
        rw [List.cons_append, walk_cons _ _ _ _ (by simp [hrest]), henter, ← hleft follow more hmore,
          List.append_assoc]
  termination_by (links, segments.length)
  decreasing_by
    rcases hcases with ⟨rfl, hnil⟩ | hlt
    · exact .right _ (Nat.lt_succ_of_le (hinner hnil))
    · exact .left _ _ hlt

/-- An empty segment inside a path means nothing. -/
lemma walk_skip (follow : Bool) (links : Nat) (folder segments : List (List UInt8))
    {more : List (List UInt8)} (hmore : more ≠ []) :
    volume.walk follow links folder (segments ++ [] :: more) =
      volume.walk follow links folder (segments ++ more) := by
  cases segments with
  | nil =>
    rw [List.nil_append, walk]
    simp [Path.part?]
  | cons segment rest =>
    rw [List.cons_append, List.cons_append, walk_cons _ _ _ _ (by simp),
      walk_cons _ _ _ _ (by simp [hmore])]
    cases henter : volume.enter links folder segment with
    | error => rfl
    | ok step =>
      obtain ⟨links', folder', inner⟩ := step
      have hcases := enter_cases henter
      have hinner : inner = [] → (inner ++ rest).length ≤ rest.length := by simp +contextual
      simpa using walk_skip follow links' folder' (inner ++ rest) hmore
  termination_by (links, segments.length)
  decreasing_by
    rcases hcases with ⟨rfl, hnil⟩ | hlt
    · exact .right _ (Nat.lt_succ_of_le (hinner hnil))
    · exact .left _ _ hlt

/-- The names from a folder to a file lead to the file. -/
lemma walk_names {rest : List (List UInt8)} {octets : List UInt8} (hne : rest ≠ [])
    (hfile : (names ++ rest, Node.file octets) ∈ volume.nodes) (follow : Bool) (links : Nat) :
    volume.walk follow links names rest = .ok ⟨names ++ rest, some (.file octets)⟩ := by
  induction rest generalizing names with
  | nil => exact absurd rfl hne
  | cons name rest ih =>
    have hname : IsName name := volume.sound.isName hfile name (by simp)
    have hsplit : names ++ name :: rest = (names ++ [name]) ++ rest := by simp
    rw [walk]
    simp only [Path.part?_of_isName hname, Nat.not_lt.mpr hname.length_le, if_false]
    cases rest with
    | nil => simp [(node?_eq_some_iff (by simp)).mpr hfile]
    | cons next rest =>
      rw [node?_of_isPrefix hfile (hsplit ▸ List.prefix_append _ _) (by simp)]
      rw [hsplit] at hfile ⊢
      exact ih (by simp) hfile

/-- A path of one name leads to the folder of that name. -/
lemma place_of_isName {name : List UInt8} (hname : IsName name)
    (hfolder : volume.node? (volume.here ++ [name]) = some .folder) (follow : Bool) :
    volume.place follow ⟨name⟩ = .ok ⟨volume.here ++ [name], some .folder⟩ := by
  have hslash : name.head? ≠ some Path.slash := fun h =>
    hname.slash_not_mem (List.mem_of_head? h)
  have hnul : name.contains 0 = false := by simpa using hname.nul_not_mem
  simp only [place, if_neg hname.ne_nil, hnul, if_neg hslash,
    Path.segments_of_not_mem hname.slash_not_mem, Bool.false_eq_true, if_false]
  rw [walk]
  simp only [Path.part?_of_isName hname, Nat.not_lt.mpr hname.length_le, if_false, hfolder]
  rw [walk]

/-- Behind the path of a folder the names below it are gone along from there. -/
lemma exists_place_joinAll {root : Path} {rest : List (List UInt8)}
    (hroot : volume.place false root = .ok ⟨names, some .folder⟩) (hne : rest ≠ [])
    (hnames : ∀ name ∈ rest, IsName name) :
    ∃ links, volume.place true (root.joinAll rest) = volume.walk true links names rest := by
  obtain ⟨hoctets, hnul, hwalk⟩ := place_eq_ok hroot
  obtain ⟨left, hleft⟩ := walk_append hwalk
  have hentry : volume.walk true linkLimit
      (if root.octets.head? = some Path.slash then [] else volume.here) (root.stem ++ rest) =
        volume.walk true left names rest := by
    rcases root.segments_eq_stem with hs | hs
    · rw [← hs, hleft true rest hne]
    · rw [← walk_skip _ _ _ _ hne, List.append_cons, ← hs, hleft true rest hne]
  refine ⟨left, ?_⟩
  rw [place, if_neg (Path.joinAll_ne_nil hnames hoctets), Path.head?_joinAll hnames hoctets,
    Path.segments_joinAll hnames hne]
  simpa [Path.nul_not_mem_joinAll hnames hnul] using hentry

/-- A file below a folder is read through the path of the folder. -/
theorem read_joinAll {root : Path} {rest : List (List UInt8)} {octets : List UInt8}
    (hroot : volume.place false root = .ok ⟨names, some .folder⟩) (hne : rest ≠ [])
    (hfile : (names ++ rest, Node.file octets) ∈ volume.nodes) :
    volume.read (root.joinAll rest) = .ok octets := by
  have hnames : ∀ name ∈ rest, IsName name := fun name hn =>
    volume.sound.isName hfile name (List.mem_append_right _ hn)
  obtain ⟨links, hplace⟩ := exists_place_joinAll hroot hne hnames
  rw [read, find, hplace, walk_names hne hfile]
  rfl

/-- A name that is free in a folder leads to nothing behind the path of the folder. -/
lemma has_join_eq_false {root : Path} {name : List UInt8}
    (hroot : volume.place false root = .ok ⟨names, some .folder⟩) (hname : IsName name)
    (hfree : volume.node? (names ++ [name]) = none) : volume.has (root.join name) = false := by
  obtain ⟨links, hplace⟩ := exists_place_joinAll hroot (List.cons_ne_nil name [])
    (List.forall_mem_singleton.mpr hname)
  have hwalk : volume.walk true links names [name] = .ok ⟨names ++ [name], none⟩ := by
    rw [walk]
    simp [Path.part?_of_isName hname, Nat.not_lt.mpr hname.length_le, hfree]
  rw [Path.joinAll_cons, Path.joinAll_nil, hwalk] at hplace
  rw [has, find, hplace]
  rfl

end Volume

end Foldmark
