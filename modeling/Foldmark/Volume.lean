import Foldmark.Path

/-!
# Volumes

A volume is a tree of folders, files and links as a value: every node is listed with the names that
lead to it from the top. No place is listed twice, and nothing lies below a file or a link. A path is
looked up name by name, and links are followed on the way.
-/
namespace Foldmark

inductive Node where
  | file (octets : List UInt8)
  | link (target : Path)
  | folder
  deriving Repr, DecidableEq

/-- The length that a name may have. -/
def nameLimit : Nat := 255

/-- What the name of a node can be: it stands between two slashes and means the node. -/
structure IsName (name : List UInt8) : Prop where
  ne_nil : name ≠ []
  ne_dot : name ≠ [Path.dot]
  ne_up : name ≠ [Path.dot, Path.dot]
  slash_not_mem : Path.slash ∉ name
  nul_not_mem : 0 ∉ name
  length_le : name.length ≤ nameLimit

instance (name : List UInt8) : Decidable (IsName name) :=
  decidable_of_iff (name ≠ [] ∧ name ≠ [Path.dot] ∧ name ≠ [Path.dot, Path.dot] ∧
      Path.slash ∉ name ∧ 0 ∉ name ∧ name.length ≤ nameLimit)
    ⟨fun ⟨a, b, c, d, e, f⟩ => ⟨a, b, c, d, e, f⟩, fun ⟨a, b, c, d, e, f⟩ => ⟨a, b, c, d, e, f⟩⟩

/-- Whether a node can be added at the given names: the place is free, only folders are on the way to
it, and only a folder goes above nodes that are there. -/
def Fits (nodes : List (List (List UInt8) × Node)) (names : List (List UInt8)) (node : Node) :
    Prop :=
  names ≠ [] ∧ (∀ name ∈ names, IsName name) ∧
    ∀ entry ∈ nodes, entry.1 ≠ names ∧ (entry.1 <+: names → entry.2 = .folder) ∧
      (names <+: entry.1 → node = .folder)

instance (nodes : List (List (List UInt8) × Node)) (names : List (List UInt8)) (node : Node) :
    Decidable (Fits nodes names node) :=
  inferInstanceAs (Decidable (_ ∧ _ ∧ _))

/-- Nodes that form a tree. -/
inductive Sound : List (List (List UInt8) × Node) → Prop where
  | nil : Sound []
  | cons {nodes : List (List (List UInt8) × Node)} {names : List (List UInt8)} {node : Node} :
      Fits nodes names node → Sound nodes → Sound ((names, node) :: nodes)

theorem Fits.filter {nodes : List (List (List UInt8) × Node)} {names : List (List UInt8)}
    {node : Node} (fits : Fits nodes names node) (keep : List (List UInt8) × Node → Bool) :
    Fits (nodes.filter keep) names node :=
  ⟨fits.1, fits.2.1, fun entry member => fits.2.2 entry (List.mem_filter.mp member).1⟩

theorem Sound.filter {nodes : List (List (List UInt8) × Node)} (sound : Sound nodes)
    (keep : List (List UInt8) × Node → Bool) : Sound (nodes.filter keep) := by
  induction sound with
  | nil => exact .nil
  | cons fits _ ih =>
    rw [List.filter_cons]
    split
    · exact .cons (fits.filter keep) ih
    · exact ih

structure Volume where
  nodes : List (List (List UInt8) × Node) := []
  /-- The folder in which relative paths begin. -/
  here : List (List UInt8) := []
  sound : Sound nodes := by exact Sound.nil

/-- Why a path cannot be used. -/
inductive Trouble where
  | notFound
  | notFolder
  | isFolder
  | linkLoop
  | longName
  | nulOctet
  | notText
  deriving Repr, DecidableEq

namespace Trouble

def message : Trouble → String
  | notFound => "No such file or directory (os error 2)"
  | notFolder => "Not a directory (os error 20)"
  | isFolder => "Is a directory (os error 21)"
  | linkLoop => "Too many levels of symbolic links (os error 40)"
  | longName => "File name too long (os error 36)"
  | nulOctet => "file name contained an unexpected NUL byte"
  | notText => "stream did not contain valid UTF-8"

end Trouble

namespace Volume

/-- Adds a node where it fits. -/
def add (volume : Volume) (names : List (List UInt8)) (node : Node) : Volume :=
  if fits : Fits volume.nodes names node then
    { volume with nodes := (names, node) :: volume.nodes, sound := .cons fits volume.sound }
  else volume

/-- The volume of the given nodes. Nodes that do not fit those before them are left out. -/
def ofNodes (here : List (List UInt8)) (nodes : List (List (List UInt8) × Node)) : Volume :=
  nodes.foldl (fun volume (names, node) => volume.add names node) { here }

/-- The volume without what is listed at the given names. -/
def erase (volume : Volume) (names : List (List UInt8)) : Volume :=
  { volume with
    nodes := volume.nodes.filter fun entry => entry.1 != names,
    sound := volume.sound.filter _ }

/-- The node at the given names. What has nodes below it is a folder. -/
def node? (volume : Volume) (names : List (List UInt8)) : Option Node :=
  match volume.nodes.lookup names with
  | some node => some node
  | none =>
    if names = [] ∨ names = volume.here ∨ volume.nodes.any fun entry => names.isPrefixOf entry.1 then
      some .folder
    else none

/-- Where a path leads: to a node, or to a name that is free in its folder. -/
structure Place where
  names : List (List UInt8)
  node : Option Node

def linkLimit : Nat := 40

/-- Goes on from a folder along the segments of a path. A link is followed, except at the very end
where `follow` is not set. -/
def walk (volume : Volume) (follow : Bool) (links : Nat) (folder : List (List UInt8))
    (segments : List (List UInt8)) : Except Trouble Place :=
  match segments with
  | [] => .ok ⟨folder, some .folder⟩
  | segment :: rest =>
    match Path.part? segment with
    | none => walk volume follow links folder rest
    | some .up => walk volume follow links folder.dropLast rest
    | some _ =>
      let names := folder ++ [segment]
      if nameLimit < segment.length then .error .longName
      else
        match volume.node? names with
        | none => if rest.isEmpty then .ok ⟨names, none⟩ else .error .notFound
        | some .folder => walk volume follow links names rest
        | some (.file octets) =>
          if rest.isEmpty then .ok ⟨names, some (.file octets)⟩ else .error .notFolder
        | some (.link target) =>
          if rest.isEmpty ∧ ¬follow then .ok ⟨names, some (.link target)⟩
          else
            match links with
            | 0 => .error .linkLoop
            | links + 1 =>
              let start := if target.octets.head? = some Path.slash then [] else folder
              walk volume follow links start (Path.segments target.octets ++ rest)
  termination_by (links, segments.length)

def place (volume : Volume) (follow : Bool) (path : Path) : Except Trouble Place :=
  if path.octets = [] then .error .notFound
  else if path.octets.contains 0 then .error .nulOctet
  else
    let start := if path.octets.head? = some Path.slash then [] else volume.here
    walk volume follow linkLimit start (Path.segments path.octets)

/-- The node to which a path leads over all links. -/
def find (volume : Volume) (path : Path) : Except Trouble Node := do
  match (← volume.place true path).node with
  | some node => return node
  | none => throw .notFound

def has (volume : Volume) (path : Path) : Bool :=
  (volume.find path).isOk

def read (volume : Volume) (path : Path) : Except Trouble (List UInt8) := do
  match ← volume.find path with
  | .file octets => return octets
  | .folder => throw .isFolder
  | .link _ => throw .linkLoop

def readText (volume : Volume) (path : Path) : Except Trouble String := do
  match Text.Utf8.decode? (← volume.read path) with
  | some text => return String.ofList text
  | none => throw .notText

/-- Puts a file in place of what the names led to. -/
def put (volume : Volume) (names : List (List UInt8)) (octets : List UInt8) : Volume :=
  (volume.erase names).add names (.file octets)

/-- Writes a file, new or not. A path with a slash at its end names a folder. -/
def write (volume : Volume) (path : Path) (octets : List UInt8) : Except Trouble Volume := do
  let bare := (path.octets.reverse.dropWhile (· == Path.slash)).reverse
  if bare = path.octets then
    let place ← volume.place true path
    match place.node with
    | some .folder => throw .isFolder
    | _ => return volume.put place.names octets
  else
    if bare ≠ [] then let _ ← volume.place true ⟨bare⟩
    throw .isFolder

end Volume

/-- The path of an entry that is reached from a folder by the given names. -/
def Path.joinAll (folder : Path) (names : List (List UInt8)) : Path :=
  names.foldl Path.join folder

end Foldmark
