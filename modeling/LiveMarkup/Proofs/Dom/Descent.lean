import LiveMarkup.Proofs.Dom.Links
import Mathlib.Data.Fintype.Card
import Mathlib.Data.Fintype.EquivFin
import Mathlib.Logic.Relation

/-!
# Nodes below one another

In an arena whose links fit together and where no node is below itself (`Dom.Acyclic`), going up
from a node ends at a root (`Linked.exists_root`), and going down from it spans a finite tree, whose
nodes are those at or below it (`Linked.exists_spans`).
-/

namespace LiveMarkup

namespace Dom

/-- The first node is the second one or below it. -/
def Below (dom : Dom) : NodeId → NodeId → Prop :=
  Relation.ReflTransGen fun id parent => dom.parent? id = some parent

/-- The second node is the parent of the first one, or the parent of that one, and so on. -/
def Under (dom : Dom) : NodeId → NodeId → Prop :=
  Relation.TransGen fun id parent => dom.parent? id = some parent

/-- No node is below itself. -/
def Acyclic (dom : Dom) : Prop := ∀ id, ¬ dom.Under id id

variable {dom : Dom} {id parent : NodeId} {node : Node}

/-- Two nodes above a third one are above one another. -/
theorem below_total {x a b : NodeId} (ha : dom.Below x a) (hb : dom.Below x b) :
    dom.Below a b ∨ dom.Below b a :=
  Relation.ReflTransGen.total_of_right_unique
    (fun _ _ _ h h' => Option.some.inj (h.symm.trans h')) ha hb

namespace Acyclic

/-- A live node. -/
abbrev Live (dom : Dom) := { id : NodeId // (dom.get? id).isSome }

instance : Finite (Live dom) := by
  have index_lt (id : Live dom) : id.1.index < dom.slots.size := by
    obtain ⟨node, hn⟩ := Option.isSome_iff_exists.1 id.2
    exact index_lt_of_get? hn
  refine Finite.of_injective (fun id : Live dom => (⟨id.1.index, index_lt id⟩ : Fin _)) ?_
  intro a b hab
  exact Subtype.ext (eq_of_index_of_isSome a.2 b.2 (Fin.mk.inj hab))

/-- From a node to those below it there is no infinite way. -/
theorem wellFounded_down (h : dom.Acyclic) :
    WellFounded fun a b : Live dom => dom.Under a.1 b.1 := by
  have : IsTrans (Live dom) fun a b => dom.Under a.1 b.1 :=
    ⟨fun _ _ _ hab hbc => Relation.TransGen.trans hab hbc⟩
  have : Std.Irrefl fun a b : Live dom => dom.Under a.1 b.1 := ⟨fun a => h a.1⟩
  exact Finite.wellFounded_of_trans_of_irrefl _

/-- From a node to those above it there is no infinite way. -/
theorem wellFounded_up (h : dom.Acyclic) :
    WellFounded fun a b : Live dom => dom.Under b.1 a.1 := by
  have : IsTrans (Live dom) fun a b => dom.Under b.1 a.1 :=
    ⟨fun _ _ _ hba hcb => Relation.TransGen.trans hcb hba⟩
  have : Std.Irrefl fun a b : Live dom => dom.Under b.1 a.1 := ⟨fun a => h a.1⟩
  exact Finite.wellFounded_of_trans_of_irrefl _

theorem not_below_parent? (h : dom.Acyclic) (hp : dom.parent? id = some parent) :
    ¬ dom.Below parent id := fun hb => h id (Relation.TransGen.head' hp hb)

/-- A node is not below its sibling. -/
theorem eq_of_below_of_parent? (h : dom.Acyclic) {a b : NodeId} (ha : dom.parent? a = some id)
    (hb : dom.parent? b = some id) (hab : dom.Below a b) : a = b := by
  rcases Relation.ReflTransGen.cases_head hab with he | ⟨p, hp, hpb⟩
  · exact he
  · obtain rfl : id = p := Option.some.inj (ha.symm.trans hp)
    exact absurd hpb (h.not_below_parent? hb)

end Acyclic

namespace Linked

/-- Following parents ends at a root. -/
theorem exists_root (h : dom.Linked) (ha : dom.Acyclic) (hid : dom.contains id = true) :
    ∃ root, dom.Below id root ∧ dom.contains root = true ∧ dom.parent? root = none := by
  suffices key : ∀ a : Acyclic.Live dom, ∃ root, dom.Below a.1 root ∧ dom.contains root = true ∧
      dom.parent? root = none from key ⟨id, hid⟩
  intro a
  induction a using ha.wellFounded_up.induction with
  | h a ih =>
    cases hp : dom.parent? a.1 with
    | none => exact ⟨a.1, .refl, a.2, hp⟩
    | some parent =>
      obtain ⟨root, hroot, hlive⟩ := ih ⟨parent, (h.listed hp).1⟩ (.single hp)
      exact ⟨root, .head hp hroot, hlive⟩

end Linked

/-- The tree is what stands at and below a node. -/
structure Spans (dom : Dom) (id : NodeId) (t : Tree NodeId) : Prop where
  label : t.label = id
  hosts : Hosts dom (dom.parent? id) t
  nodup : t.labels.Nodup
  mem_iff : ∀ x, x ∈ t.labels ↔ dom.Below x id

theorem Spans.tree?_eq {t : Tree NodeId} (h : Spans dom id t) : dom.tree? id = some t := by
  have := h.hosts.tree?_eq h.nodup
  rwa [h.label] at this

/-- Trees of different children have no node in common. -/
theorem Acyclic.nodup_labelsOfAll (ha : dom.Acyclic) {ts : List (Tree NodeId)}
    (hparent : ∀ t ∈ ts, dom.parent? t.label = some id) (hts : ∀ t ∈ ts, Spans dom t.label t)
    (hdistinct : (ts.map Tree.label).Nodup) : (Tree.labelsOfAll ts).Nodup := by
  rw [Tree.labelsOfAll_eq_flatMap, List.nodup_flatMap]
  rw [List.Nodup, List.pairwise_map] at hdistinct
  refine ⟨fun t ht => (hts t ht).nodup,
    hdistinct.imp_of_mem fun {t u} ht hu hne x hx hx' => hne ?_⟩
  rcases below_total (((hts t ht).mem_iff x).1 hx) (((hts u hu).mem_iff x).1 hx') with hb | hb
  · exact ha.eq_of_below_of_parent? (hparent t ht) (hparent u hu) hb
  · exact (ha.eq_of_below_of_parent? (hparent u hu) (hparent t ht) hb).symm

namespace Linked

theorem nodup_children (h : dom.Linked) (id : NodeId) : (dom.children id).Nodup :=
  List.nodup_iff_count_eq_one.2 fun _ hm => (h.listed (h.named hm).2).2

/-- The trees of the children make up the tree of a node. -/
theorem spans_of_children (h : dom.Linked) (ha : dom.Acyclic) (hn : dom.get? id = some node)
    {ts : List (Tree NodeId)} (hlabels : ts.map Tree.label = node.children)
    (hts : ∀ t ∈ ts, Spans dom t.label t) : Spans dom id (.node id node.content ts) := by
  have hparent : ∀ t ∈ ts, dom.parent? t.label = some id := fun t ht =>
    (h.named (by rw [children_eq hn, ← hlabels]; exact List.mem_map_of_mem ht)).2
  have hbelow : ∀ x, x ∈ Tree.labelsOfAll ts ↔ ∃ t ∈ ts, dom.Below x t.label := fun x => by
    rw [Tree.labelsOfAll_eq_flatMap, List.mem_flatMap]
    exact exists_congr fun t => and_congr_right fun ht => (hts t ht).mem_iff x
  have hself : id ∉ Tree.labelsOfAll ts := fun hm => by
    obtain ⟨t, ht, hb⟩ := (hbelow id).1 hm
    exact ha.not_below_parent? (hparent t ht) hb
  have hhosts : HostsAll dom (some id) ts := hostsAll_iff.2 fun t ht => by
    have := (hts t ht).hosts
    rwa [hparent t ht] at this
  have hnodup : (Tree.labelsOfAll ts).Nodup := by
    refine ha.nodup_labelsOfAll hparent hts ?_
    rw [hlabels, ← children_eq hn]
    exact h.nodup_children id
  refine ⟨rfl, ⟨?_, hhosts⟩, List.nodup_cons.2 ⟨hself, hnodup⟩, fun x => ?_⟩
  · rw [hn, hlabels, parent?_eq hn]
  · rw [Tree.labels, List.mem_cons, hbelow]
    constructor
    · rintro (rfl | ⟨t, ht, hb⟩)
      · exact .refl
      · exact hb.tail (hparent t ht)
    · intro hb
      rcases Relation.ReflTransGen.cases_tail hb with he | ⟨c, hc, hp⟩
      · exact .inl he.symm
      · have hmem := h.mem_children hp
        rw [children_eq hn, ← hlabels] at hmem
        obtain ⟨t, ht, rfl⟩ := List.mem_map.1 hmem
        exact .inr ⟨t, ht, hc⟩

/-- Going down from a live node spans a tree. -/
theorem exists_spans (h : dom.Linked) (ha : dom.Acyclic) (hid : dom.contains id = true) :
    ∃ t, Spans dom id t := by
  suffices key : ∀ a : Acyclic.Live dom, ∃ t, Spans dom a.1 t from key ⟨id, hid⟩
  intro a
  induction a using ha.wellFounded_down.induction with
  | h a ih =>
    obtain ⟨node, hn⟩ := Option.isSome_iff_exists.1 a.2
    have hchildren : ∀ c ∈ node.children, ∃ t, Spans dom c t := fun c hc => by
      obtain ⟨hlive, hp⟩ := h.named (by rw [children_eq hn]; exact hc)
      exact ih ⟨c, hlive⟩ (.single hp)
    choose! tree htree using hchildren
    have hlabels : (node.children.map tree).map Tree.label = node.children := by
      rw [List.map_map]
      exact (List.map_congr_left fun c hc => (htree c hc).label).trans (List.map_id _)
    have hts : ∀ t ∈ node.children.map tree, Spans dom t.label t :=
      List.forall_mem_map.2 fun c hc => by
        rw [(htree c hc).label]
        exact htree c hc
    exact ⟨_, h.spans_of_children ha hn hlabels hts⟩

end Linked

end Dom

end LiveMarkup
