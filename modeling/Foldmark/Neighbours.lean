/-!
# Neighbours with one key

In a row that is ordered by a key, entries of one key stand side by side. `dedupBy` keeps the first
of them.
-/
namespace Foldmark

def dedupBy {α : Type} (key : α → Nat) : List α → List α
  | [] => []
  | [a] => [a]
  | a :: b :: rest =>
    if key a = key b then dedupBy key (a :: rest) else a :: dedupBy key (b :: rest)
  termination_by entries => entries.length

end Foldmark
