/-!
# Cutting a text into fields

Separated fields, and a text enclosed between two given ends. All cuts are on lists, so they serve
characters and bytes alike.
-/

namespace Beacon.Text

/-- The parts of a list between the separators: always at least one, and one more than there are
separators. -/
def fields {α : Type} [DecidableEq α] (sep : α) : List α → List (List α)
  | [] => [[]]
  | c :: cs =>
    if c = sep then [] :: fields sep cs
    else match fields sep cs with
      | [] => [[c]]
      | field :: rest => (c :: field) :: rest

/-- What stands before the last element of a list, if that element is `last`. -/
def dropLast? {α : Type} [DecidableEq α] (last : α) (cs : List α) : Option (List α) :=
  if cs.getLast? = some last then some cs.dropLast else none

/-- The parts of a text `name open body close`: the name ends at the first `opening`, and the text
must end with a `closing` behind it. -/
def enclosed? {α : Type} [DecidableEq α] (opening closing : α) (cs : List α) :
    Option (List α × List α) :=
  match cs.dropWhile (· ≠ opening) with
  | [] => none
  | _ :: tail => (dropLast? closing tail).map fun body => (cs.takeWhile (· ≠ opening), body)

/-- The lines of a list, each without the `newline` that ends it; a last line may lack one. -/
def lines {α : Type} [DecidableEq α] (newline : α) (cs : List α) : List (List α) :=
  let parts := fields newline cs
  if parts.getLast? = some [] then parts.dropLast else parts

theorem fields_ne_nil {α : Type} [DecidableEq α] (sep : α) (cs : List α) : fields sep cs ≠ [] := by
  cases cs with
  | nil => simp [fields]
  | cons c cs =>
    unfold fields
    split
    · simp
    · split <;> simp

end Beacon.Text
