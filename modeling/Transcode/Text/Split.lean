/-!
# Cutting characters apart

The pieces of a list of characters between the characters that a test picks out. The pieces joined
with those characters are the list again, so there is one more piece than there are separators.
-/

namespace Transcode.Text

/-- The pieces between the characters that satisfy `isSeparator`. -/
def splitWhere (isSeparator : Char → Bool) : List Char → List (List Char)
  | [] => [[]]
  | c :: rest =>
    if isSeparator c then [] :: splitWhere isSeparator rest
    else match splitWhere isSeparator rest with
      | [] => [[c]]
      | piece :: pieces => (c :: piece) :: pieces

/-- A split has at least one piece. -/
theorem splitWhere_ne_nil (isSeparator : Char → Bool) (cs : List Char) :
    splitWhere isSeparator cs ≠ [] := by
  cases cs with
  | nil => simp [splitWhere]
  | cons c rest =>
      simp only [splitWhere]
      split
      · simp
      · split <;> simp

/-- The text before the first separator, and the text after it if there is one. -/
def cutAt (isSeparator : Char → Bool) : List Char → List Char × Option (List Char)
  | [] => ([], none)
  | c :: rest =>
    if isSeparator c then ([], some rest)
    else ((c :: (cutAt isSeparator rest).1), (cutAt isSeparator rest).2)

/-- What follows a given beginning. -/
def stripStart? : List Char → List Char → Option (List Char)
  | [], rest => some rest
  | _ :: _, [] => none
  | p :: beginning, c :: rest => if p = c then stripStart? beginning rest else none

/-- A beginning is stripped from the texts that begin with it. -/
theorem stripStart?_eq_some_iff {beginning cs rest : List Char} :
    stripStart? beginning cs = some rest ↔ cs = beginning ++ rest := by
  induction beginning generalizing cs with
  | nil => simp [stripStart?, eq_comm]
  | cons p beginning ih =>
      cases cs with
      | nil => simp [stripStart?]
      | cons c cs =>
          by_cases h : p = c
          · simp [stripStart?, h, ih]
          · simp [stripStart?, h, Ne.symm h]

/-- What precedes a given end. -/
def stripEnd? (ending cs : List Char) : Option (List Char) :=
  (stripStart? ending.reverse cs.reverse).map List.reverse

/-- The text between the first place where `mark` stands and what follows that place. -/
def cutAtText (mark : List Char) : List Char → Option (List Char × List Char)
  | [] => if mark.isEmpty then some ([], []) else none
  | c :: rest =>
    match stripStart? mark (c :: rest) with
    | some after => some ([], after)
    | none => (cutAtText mark rest).map fun cut => (c :: cut.1, cut.2)

/-- The part of a list after the last element that satisfies the test. -/
def afterLast (test : Char → Bool) (cs : List Char) : List Char :=
  (cs.reverse.takeWhile (!test ·)).reverse

end Transcode.Text
