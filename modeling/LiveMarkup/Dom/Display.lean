import LiveMarkup.Diagnostic
import LiveMarkup.Dom.Fragment
import LiveMarkup.Dom.Reconcile
import LiveMarkup.Text.Blank

/-!
# Displays

What is shown of a markup is the tree of its first root. `Dom.mount` shows it as a new tree, and
`Dom.refresh` changes the tree that is shown already. Further roots are freed, and are a defect
unless they are blank.
-/

namespace LiveMarkup

/-- What is shown, and what is defective about it. -/
structure Display where
  dom : Dom
  root? : Option NodeId
  defect? : Option Diagnostic

namespace Dom

/-- Whether a node is a text of blanks. -/
def isBlankText (dom : Dom) (id : NodeId) : Bool :=
  (dom.text? id).any fun s => s.toList.all isBlank

/-- Frees nodes, and counts those that are not blank. -/
def releaseAll (dom : Dom) : List NodeId → Dom × Nat
  | [] => (dom, 0)
  | id :: rest =>
    let (after, count) := (dom.release id).releaseAll rest
    (after, if dom.isBlankText id then count else count + 1)

/-- Shows the first root of a markup as a new tree. -/
def mount [Html.Tokenizer] (dom : Dom) (markup : List Char) : Display :=
  match dom.parseFragment (trim markup) with
  | (dom, []) => ⟨dom, none, some .emptyTemplate⟩
  | (dom, root :: surplus) =>
    let (dom, count) := dom.releaseAll surplus
    ⟨dom, some root, if count = 0 then none else some (.multipleRoots (count + 1))⟩

/-- Shows the first root of a markup in place of what is shown. Markup without any node leaves that
as it is. -/
def refresh [Html.Tokenizer] (dom : Dom) (shown : Option NodeId) (markup : List Char) : Display :=
  let fresh := dom.mount markup
  match fresh.root?, shown with
  | none, _ => { fresh with root? := shown }
  | some _, none => fresh
  | some root, some live =>
    let (patch, result) := fresh.dom.reconcile live root
    { fresh with dom := patch.dom.release root, root? := some result }

end Dom

end LiveMarkup
