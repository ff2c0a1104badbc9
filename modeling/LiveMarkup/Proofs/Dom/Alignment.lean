import LiveMarkup.Dom.Reconcile
import LiveMarkup.Proofs.Dom.Copying
import LiveMarkup.Proofs.OrderedMap

/-!
# Aligning one tree with another

What reconciling makes of two trees, said of the trees alone: `Dom.Aligned live fresh made edits`
holds if `made` is what stands for `live` after it was reconciled with `fresh`, by these edits.
There is one rule for each way of reconciling two nodes.

Aligned trees are alike (`Aligned.alike`): they have the same contents in the same order, up to the
order of attributes.
-/

namespace LiveMarkup

/-! ## Alike trees -/

/-- The same text, or elements with one tag and the same attributes in any order. -/
def Content.Alike : Content → Content → Prop
  | .text s, .text s' => s = s'
  | .element tag attributes, .element tag' attributes' =>
    tag = tag' ∧ ∀ name, attributes.find? name = attributes'.find? name
  | _, _ => False

/-- Each attribute is there once. -/
def Content.WellFormed : Content → Prop
  | .text _ => True
  | .element _ attributes => attributes.Distinct

/-- Contents are alike themselves; together with symmetry and transitivity, `Content.Alike` is an
equivalence. -/
theorem Content.Alike.refl : ∀ c : Content, c.Alike c
  | .text _ => rfl
  | .element _ _ => ⟨rfl, fun _ => rfl⟩

theorem Content.Alike.symm : ∀ {c d : Content}, c.Alike d → d.Alike c
  | .text _, .text _, h => Eq.symm h
  | .element _ _, .element _ _, h => ⟨h.1.symm, fun name => (h.2 name).symm⟩

theorem Content.Alike.trans : ∀ {c d e : Content}, c.Alike d → d.Alike e → c.Alike e
  | .text _, .text _, .text _, h, h' => Eq.trans h h'
  | .element _ _, .element _ _, .element _ _, h, h' =>
    ⟨h.1.trans h'.1, fun name => (h.2 name).trans (h'.2 name)⟩

namespace Tree

variable {α β γ : Type}

mutual

/-- The trees have the same shape and alike nodes. -/
def Alike : Tree α → Tree β → Prop
  | node _ c ts, node _ d us => c.Alike d ∧ AlikeAll ts us

/-- The trees at one position are alike, and there are as many on both sides. -/
def AlikeAll : List (Tree α) → List (Tree β) → Prop
  | [], [] => True
  | t :: ts, u :: us => Alike t u ∧ AlikeAll ts us
  | _, _ => False

end

mutual

/-- Text nodes are leaves, and each attribute of an element is there once. -/
def WellFormed : Tree α → Prop
  | node _ c ts => c.WellFormed ∧ (∀ s, c = .text s → ts = []) ∧ WellFormedAll ts

/-- All trees are wellformed. -/
def WellFormedAll : List (Tree α) → Prop
  | [] => True
  | t :: ts => WellFormed t ∧ WellFormedAll ts

end

/-- Trees are wellformed together if each one is. -/
theorem wellFormedAll_iff {ts : List (Tree α)} :
    WellFormedAll ts ↔ ∀ t ∈ ts, t.WellFormed := by
  induction ts with
  | nil => simp [WellFormedAll]
  | cons t ts ih => rw [WellFormedAll, ih, List.forall_mem_cons]

theorem wellFormedAll_append_iff {ts us : List (Tree α)} :
    WellFormedAll (ts ++ us) ↔ WellFormedAll ts ∧ WellFormedAll us := by
  simp only [wellFormedAll_iff, List.forall_mem_append]

mutual

/-- A copy has the very contents of what it was made from, so that it is alike. -/
theorem Copies.alike : ∀ {t : Tree α} {u : Tree β}, Copies t u → Alike t u
  | node _ c _, node _ _ _, h => ⟨h.1 ▸ .refl c, h.2.alikeAll⟩

theorem CopiesAll.alikeAll : ∀ {ts : List (Tree α)} {us : List (Tree β)}, CopiesAll ts us →
    AlikeAll ts us
  | [], [], _ => trivial
  | _ :: _, _ :: _, h => ⟨h.1.alike, h.2.alikeAll⟩
  | _ :: _, [], h => by cases h
  | [], _ :: _, h => by cases h

end

mutual

/-- Trees that are alike are so in either order. -/
theorem Alike.symm : ∀ {t : Tree α} {u : Tree β}, Alike t u → Alike u t
  | node _ _ _, node _ _ _, h => ⟨h.1.symm, h.2.symm⟩

theorem AlikeAll.symm : ∀ {ts : List (Tree α)} {us : List (Tree β)}, AlikeAll ts us → AlikeAll us ts
  | [], [], _ => trivial
  | _ :: _, _ :: _, h => ⟨h.1.symm, h.2.symm⟩
  | _ :: _, [], h => by cases h
  | [], _ :: _, h => by cases h

end

mutual

theorem Alike.trans : ∀ {t : Tree α} {u : Tree β} {v : Tree γ}, Alike t u → Alike u v → Alike t v
  | node _ _ _, node _ _ _, node _ _ _, h, h' => ⟨h.1.trans h'.1, h.2.trans h'.2⟩

theorem AlikeAll.trans : ∀ {ts : List (Tree α)} {us : List (Tree β)} {vs : List (Tree γ)},
    AlikeAll ts us → AlikeAll us vs → AlikeAll ts vs
  | [], [], [], _, _ => trivial
  | _ :: _, _ :: _, _ :: _, h, h' => ⟨h.1.trans h'.1, h.2.trans h'.2⟩
  | _ :: _, [], _, h, _ => by cases h
  | [], _ :: _, _, h, _ => by cases h
  | _ :: _, _ :: _, [], _, h => by cases h
  | [], [], _ :: _, _, h => by cases h

end

mutual

/-- Alike trees have as many nodes. -/
theorem Alike.length_labels : ∀ {t : Tree α} {u : Tree β}, Alike t u →
    t.labels.length = u.labels.length
  | node _ _ _, node _ _ _, h => congrArg (· + 1) h.2.length_labelsOfAll

theorem AlikeAll.length_labelsOfAll : ∀ {ts : List (Tree α)} {us : List (Tree β)}, AlikeAll ts us →
    (labelsOfAll ts).length = (labelsOfAll us).length
  | [], [], _ => rfl
  | t :: ts, u :: us, h => by
    rw [labelsOfAll, labelsOfAll, List.length_append, List.length_append, h.1.length_labels,
      h.2.length_labelsOfAll]
  | _ :: _, [], h => by cases h
  | [], _ :: _, h => by cases h

end

mutual

/-- A copy of a wellformed tree is wellformed. -/
theorem Copies.wellFormed : ∀ {t : Tree α} {u : Tree β}, Copies t u → t.WellFormed → u.WellFormed
  | node _ _ ts, node _ _ us, h, ht => by
    obtain ⟨rfl, hall⟩ := h
    refine ⟨ht.1, fun s hs => ?_, hall.wellFormedAll ht.2.2⟩
    rw [ht.2.1 s hs] at hall
    cases us with
    | nil => rfl
    | cons u us => cases hall

theorem CopiesAll.wellFormedAll : ∀ {ts : List (Tree α)} {us : List (Tree β)}, CopiesAll ts us →
    WellFormedAll ts → WellFormedAll us
  | [], [], _, _ => trivial
  | _ :: _, _ :: _, h, ht => ⟨h.1.wellFormed ht.1, h.2.wellFormedAll ht.2⟩
  | _ :: _, [], h, _ => by cases h
  | [], _ :: _, h, _ => by cases h

end

end Tree

/-! ## The rules -/

namespace Dom

open Patch

/-- The changes that bring attributes to wanted ones. -/
def attributeEdits (live : NodeId) (attributes wanted : OrderedMap String String) : List Edit :=
  (attributes.filter fun e => !wanted.contains e.1).map (fun e => .removeAttribute live e.1) ++
    (wanted.filter fun e => attributes.find? e.1 ≠ some e.2).map
      fun e => .setAttribute live e.1 e.2

mutual

/-- `made` stands for `live` after it was reconciled with `fresh` by the edits. -/
inductive Aligned : Tree NodeId → Tree NodeId → Tree NodeId → List Edit → Prop
  | text (a b : NodeId) (s s' : String) :
    Aligned (.node a (.text s) []) (.node b (.text s') []) (.node a (.text s') [])
      (if s = s' then [] else [.setText a s'])
  | element {a b : NodeId} {tag : String} {attributes wanted : OrderedMap String String}
    {ts us vs : List (Tree NodeId)} {edits : List Edit} (h : AlignedAll a ts us vs edits) :
    Aligned (.node a (.element tag attributes) ts) (.node b (.element tag wanted) us)
      (.node a (.element tag (attributes.align wanted)) vs)
      (attributeEdits a attributes wanted ++ edits)
  | replaced {live fresh made : Tree NodeId}
    (h : Match.ofContents (some live.content) (some fresh.content) = .replace)
    (hcopy : fresh.Copies made) :
    Aligned live fresh made
      [.copyTree fresh.label made.label made.labels, .replace live.label made.label]

/-- The same for the children of a node, matched in order. -/
inductive AlignedAll : NodeId → List (Tree NodeId) → List (Tree NodeId) → List (Tree NodeId) →
    List Edit → Prop
  | done (parent : NodeId) : AlignedAll parent [] [] [] []
  | matched {parent : NodeId} {t u v : Tree NodeId} {ts us vs : List (Tree NodeId)}
    {edits edits' : List Edit} (h : Aligned t u v edits)
    (hrest : AlignedAll parent ts us vs edits') :
    AlignedAll parent (t :: ts) (u :: us) (v :: vs) (edits ++ edits')
  | surplus {parent : NodeId} {t : Tree NodeId} {ts : List (Tree NodeId)} {edits : List Edit}
    (hrest : AlignedAll parent ts [] [] edits) :
    AlignedAll parent (t :: ts) [] [] (.remove t.label :: edits)
  | missing {parent : NodeId} {u v : Tree NodeId} {us vs : List (Tree NodeId)} {edits : List Edit}
    (hcopy : u.Copies v) (hrest : AlignedAll parent [] us vs edits) :
    AlignedAll parent [] (u :: us) (v :: vs)
      (.copyTree u.label v.label v.labels :: .append parent v.label :: edits)

end

mutual

/-- What stands for a tree after it was reconciled is alike to what it was reconciled with. An
element has its attributes aligned, and its children by the rule for each pair of them. -/
theorem Aligned.alike : ∀ {live fresh made : Tree NodeId} {edits : List Edit},
    Aligned live fresh made edits → live.WellFormed → fresh.WellFormed → made.Alike fresh
  | _, _, _, _, .text _ _ _ _, _, _ => ⟨rfl, trivial⟩
  | _, _, _, _, .element h, hl, hf =>
    ⟨⟨rfl, OrderedMap.find?_align hl.1 hf.1⟩, h.alikeAll hl.2.2 hf.2.2⟩
  | _, _, _, _, .replaced _ hcopy, _, _ => hcopy.alike.symm

/-- The same for the children of a node: those that are left are alike to the wanted ones, place by
place. -/
theorem AlignedAll.alikeAll : ∀ {parent : NodeId} {ts us vs : List (Tree NodeId)}
    {edits : List Edit}, AlignedAll parent ts us vs edits → Tree.WellFormedAll ts →
    Tree.WellFormedAll us → Tree.AlikeAll vs us
  | _, _, _, _, _, .done _, _, _ => trivial
  | _, _, _, _, _, .matched h hrest, hl, hf => ⟨h.alike hl.1 hf.1, hrest.alikeAll hl.2 hf.2⟩
  | _, _, _, _, _, .surplus hrest, hl, hf => hrest.alikeAll hl.2 hf
  | _, _, _, _, _, .missing hcopy hrest, hl, hf => ⟨hcopy.alike.symm, hrest.alikeAll hl hf.2⟩

end

mutual

/-- Reconciling keeps each attribute once and text nodes without children. -/
theorem Aligned.wellFormed : ∀ {live fresh made : Tree NodeId} {edits : List Edit},
    Aligned live fresh made edits → live.WellFormed → fresh.WellFormed → made.WellFormed
  | _, _, _, _, .text _ _ _ _, _, _ => ⟨trivial, fun _ _ => rfl, trivial⟩
  | _, _, _, _, .element h, hl, hf =>
    ⟨OrderedMap.Distinct.align hl.1 _, fun _ e => (by cases e), h.wellFormedAll hl.2.2 hf.2.2⟩
  | _, _, _, _, .replaced _ hcopy, _, hf => hcopy.wellFormed hf

theorem AlignedAll.wellFormedAll : ∀ {parent : NodeId} {ts us vs : List (Tree NodeId)}
    {edits : List Edit}, AlignedAll parent ts us vs edits → Tree.WellFormedAll ts →
    Tree.WellFormedAll us → Tree.WellFormedAll vs
  | _, _, _, _, _, .done _, _, _ => trivial
  | _, _, _, _, _, .matched h hrest, hl, hf =>
    ⟨h.wellFormed hl.1 hf.1, hrest.wellFormedAll hl.2 hf.2⟩
  | _, _, _, _, _, .surplus hrest, hl, hf => hrest.wellFormedAll hl.2 hf
  | _, _, _, _, _, .missing hcopy hrest, hl, hf =>
    ⟨hcopy.wellFormed hf.1, hrest.wellFormedAll hl hf.2⟩

end

end Dom

end LiveMarkup
