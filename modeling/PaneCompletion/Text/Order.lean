import PaneCompletion.Text.Basic

/-!
# Order of texts

Texts are ordered by code point, character by character, a beginning before what it begins.
`sortOn` is the stable insertion sort by a key: entries with equal keys keep their order.
-/

namespace PaneCompletion

namespace Text

/-- `a` comes before `b` or is equal to it. -/
def le : Text → Text → Bool
  | [], _ => true
  | _ :: _, [] => false
  | a :: as, b :: bs => if a = b then le as bs else a.toNat < b.toNat

end Text

/-- Put an entry in front of the first one whose key is not smaller. -/
def insertOn {α : Type} (key : α → Text) (a : α) : List α → List α
  | [] => [a]
  | b :: rest => if Text.le (key a) (key b) then a :: b :: rest else b :: insertOn key a rest

/-- Sort by a key; entries with equal keys keep their order. -/
def sortOn {α : Type} (key : α → Text) : List α → List α
  | [] => []
  | a :: rest => insertOn key a (sortOn key rest)

/-- Sort texts by code point. -/
def sortTexts (texts : List Text) : List Text := sortOn id texts

end PaneCompletion
