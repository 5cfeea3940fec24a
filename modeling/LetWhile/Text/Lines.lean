/-!
# Lines

A text is cut into lines behind each of its line feeds. It can be a text of bytes or of characters,
so the line feed is an argument.
-/

namespace LetWhile

/-- Cuts a text behind every line feed. The last part, which has none, can be empty. -/
def cutLines {α : Type} [DecidableEq α] (feed : α) : List α → List (List α)
  | [] => [[]]
  | x :: xs =>
    if x = feed then [x] :: cutLines feed xs
    else
      match cutLines feed xs with
      | first :: rest => (x :: first) :: rest
      | [] => [[x]]

/-- A line with its line feed, which is its only one. -/
def IsLine {α : Type} (feed : α) (line : List α) : Prop :=
  ∃ body, feed ∉ body ∧ line = body ++ [feed]

theorem cutLines_append {α : Type} [DecidableEq α] {feed : α} {body : List α} (h : feed ∉ body)
    (rest : List α) :
    cutLines feed (body ++ feed :: rest) = (body ++ [feed]) :: cutLines feed rest := by
  induction body with
  | nil => rw [List.nil_append, cutLines, if_pos rfl, List.nil_append]
  | cons x body ih =>
      rw [List.mem_cons, not_or] at h
      rw [List.cons_append, cutLines, if_neg (Ne.symm h.1), ih h.2]
      rfl

end LetWhile
