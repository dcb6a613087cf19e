import Foldmark.Fold

/-!
# Sessions

The open documents of an editor. Every document has at most one current outline with the version
that it was made from; an outline of an older version never takes the place of a newer one.
-/
namespace Foldmark

/-- The current state of one open document. -/
structure Edition where
  version : Nat
  outline : Outline
  deriving Repr, DecidableEq

/-- Open documents by their identifier. No identifier occurs twice. -/
structure Session where
  entries : List (String × Edition) := []
  distinct : (entries.map Prod.fst).Nodup := by simp

namespace Session

def empty : Session := {}

def get? (session : Session) (id : String) : Option Edition :=
  session.entries.lookup id

def size (session : Session) : Nat :=
  session.entries.length

def isEmpty (session : Session) : Bool :=
  session.entries.isEmpty

/-- The entries of all other documents. -/
def others (session : Session) (id : String) : List (String × Edition) :=
  session.entries.filter fun entry => entry.1 != id

theorem others_distinct (session : Session) (id : String) :
    ((session.others id).map Prod.fst).Nodup := by
  have sub : (session.others id).Sublist session.entries := List.filter_sublist
  exact (sub.map Prod.fst).nodup session.distinct

theorem not_mem_others (session : Session) (id : String) :
    id ∉ (session.others id).map Prod.fst := by
  simp [others]

/-- Forgets a document, whether it is open or not. -/
def erase (session : Session) (id : String) : Session where
  entries := session.others id
  distinct := session.others_distinct id

/-- Makes an edition the current one of a document. -/
def insert (session : Session) (id : String) (edition : Edition) : Session where
  entries := (id, edition) :: session.others id
  distinct := by
    rw [List.map_cons, List.nodup_cons]
    exact ⟨session.not_mem_others id, session.others_distinct id⟩

/-- Whether an outline of the given version may become the current one. -/
def accepts (session : Session) (id : String) (version : Nat) : Bool :=
  match session.get? id with
  | some current => current.version ≤ version
  | none => true

/-- Takes an outline of a version unless a newer one is current; says whether it was taken. -/
def replace (session : Session) (id : String) (version : Nat) (outline : Outline) :
    Bool × Session :=
  if session.accepts id version then (true, session.insert id ⟨version, outline⟩)
  else (false, session)

/-- Closes a document; says whether it was open. -/
def close (session : Session) (id : String) : Bool × Session :=
  ((session.get? id).isSome, session.erase id)

def outline? (session : Session) (id : String) : Option Outline :=
  (session.get? id).map Edition.outline

def version? (session : Session) (id : String) : Option Nat :=
  (session.get? id).map Edition.version

/-- The fold directive of a line; outside all folds if the document is not open. -/
def directive (session : Session) (id : String) (line : Nat) : FoldDirective :=
  match session.outline? id with
  | some outline => outline.directive line
  | none => .noFold

end Session

end Foldmark
