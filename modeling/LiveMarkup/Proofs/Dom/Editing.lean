import LiveMarkup.Dom.Reconcile
import LiveMarkup.Proofs.Dom.Generations

/-!
# Edits as changes

The edits that reconciling notes are changes to the arena (`Dom.Edit.change`), and nothing else
happens to it: the arena afterwards is that of a run of these changes, and the nodes noted as copies
are those made in the run (`Dom.Patch.Records`, `Dom.records_reconcile`). This holds on every arena
and for all handles, stale ones included.
-/

namespace LiveMarkup

namespace Dom

namespace Edit

/-- The change to the arena. -/
def change : Edit → Change
  | setAttribute node name value => .setAttribute node name value
  | removeAttribute node name => .removeAttribute node name
  | setText node s => .setText node s
  | copyTree node _ _ => .copyTree node
  | append parent child => .append parent child
  | replace old new => .replace old new
  | remove node => .remove node

/-- The nodes that are noted as made. -/
def made : Edit → List NodeId
  | copyTree _ _ made => made
  | _ => []

end Edit

variable [Html.Tokenizer]

/-- The handles that are made are those of the copy. -/
theorem made_copyTree (dom : Dom) (id : NodeId) :
    Change.made dom (.copyTree id) = (dom.copyTree id).1.handlesFrom (dom.copyTree id).2 := by
  rw [Change.made]
  split
  · rfl
  · next hstale =>
    have hnone := tree?_of_stale (Bool.eq_false_iff.2 hstale)
    rw [copyTree, hnone, handlesFrom, hnone]
    rfl

namespace Patch

variable {dom : Dom} {p : Patch}

/-- The arena is that of a run of the edits, and the nodes that they note were made in it. -/
structure Records (dom : Dom) (p : Patch) : Prop where
  dom_eq : p.dom = dom.run (p.edits.map Edit.change)
  made_eq : dom.handlesMade (p.edits.map Edit.change) = p.edits.flatMap Edit.made

namespace Records

theorem nil (dom : Dom) : Records dom ⟨dom, []⟩ := ⟨rfl, rfl⟩

/-- An edit that is noted as it is made. -/
theorem note (h : Records dom p) (edit : Edit) (hmade : edit.change.made p.dom = edit.made) :
    Records dom (p.note (edit.change.apply p.dom) edit) := by
  have hone : dom.run ((p.edits ++ [edit]).map Edit.change) = edit.change.apply p.dom := by
    rw [List.map_append, run_append, ← h.dom_eq]
    rfl
  refine ⟨hone.symm, ?_⟩
  rw [Patch.note, List.map_append, handlesMade_append, h.made_eq, ← h.dom_eq, List.flatMap_append,
    List.flatMap_singleton, List.map_singleton, handlesMade, handlesMade, hmade, List.append_nil]

theorem copyTree (h : Records dom p) (id : NodeId) : Records dom (p.copyTree id).1 :=
  h.note (.copyTree id (p.dom.copyTree id).2 _) (made_copyTree p.dom id)

theorem dropUnwanted (h : Records dom p) (live : NodeId) (wanted : OrderedMap String String)
    (entry : String × String) : Records dom (Patch.dropUnwanted live wanted p entry) := by
  rw [Patch.dropUnwanted]
  split
  · exact h
  · exact h.note (.removeAttribute live entry.1) rfl

theorem setMissing (h : Records dom p) (live : NodeId) (entry : String × String) :
    Records dom (Patch.setMissing live p entry) := by
  rw [Patch.setMissing]
  split
  · exact h
  · exact h.note (.setAttribute live entry.1 entry.2) rfl

theorem alignAttributes (h : Records dom p) (live fresh : NodeId) :
    Records dom (p.alignAttributes live fresh) := by
  rw [alignAttributes_eq]
  refine List.foldlRecOn _ _ ?_ fun p hp entry _ => hp.setMissing live entry
  exact List.foldlRecOn _ _ h fun p hp entry _ => hp.dropUnwanted live _ entry

theorem alignChildren {each : Patch → NodeId → NodeId → Patch} (h : Records dom p)
    (parent : NodeId) (heach : ∀ {p : Patch} (l f : NodeId), Records dom p →
      Records dom (each p l f)) (live fresh : List NodeId) :
    Records dom (p.alignChildren each parent live fresh) := by
  fun_induction Patch.alignChildren each parent p live fresh with
  | case1 => exact h
  | case2 p l live f fresh ih => exact ih (heach l f h)
  | case3 p l live ih => exact ih (h.note (.remove l) rfl)
  | case4 p f fresh p' copy hcopy ih =>
    have hmade := h.copyTree f
    rw [hcopy] at hmade
    exact ih (hmade.note (.append parent copy) rfl)

theorem reconcile_levels (h : Records dom p) (levels : Nat) (live fresh : NodeId) :
    Records dom (Patch.reconcile levels p live fresh).1 := by
  induction levels generalizing p live fresh with
  | zero => exact h
  | succ levels ih =>
    rw [Patch.reconcile]
    split
    · exact h
    · exact h.copyTree fresh
    · exact (h.copyTree fresh).note (.replace live (p.copyTree fresh).2) rfl
    · next s _ =>
      dsimp only
      split
      · exact h
      · exact h.note (.setText live s) rfl
    · exact (h.alignAttributes live fresh).alignChildren live (fun l f h => ih h l f) _ _

end Records

end Patch

/-- Reconciling changes the arena by its edits alone, and notes what they make. -/
theorem records_reconcile (dom : Dom) (live fresh : NodeId) :
    Patch.Records dom (dom.reconcile live fresh).1 :=
  (Patch.Records.nil dom).reconcile_levels _ live fresh

end Dom

end LiveMarkup
