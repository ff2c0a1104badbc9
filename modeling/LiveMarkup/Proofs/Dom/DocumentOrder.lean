import LiveMarkup.Proofs.Dom.Building
import Mathlib.Logic.Function.Iterate

/-!
# The text of a node

The text of a node is collected by a loop over a stack of nodes (`Dom.readTurn`), on which the
children of an element take the place of the element. In a forest the loop ends, and what it
collects is the text of the text nodes at and below the node, in document order: a node comes before
what is below it, and what is below it comes child by child (`Dom.ReadsInOrder`,
`IsForest.readsInOrder`).

The stack holds the roots of the trees that are still to be read, the last one first
(`collectWithin_eq`, `iterate_readTurn_eq`).
-/

namespace LiveMarkup

namespace Dom

variable {dom : Dom} {id : NodeId}

/-! ## The loop -/

/-- One turn: the handle at the end of the stack is taken off. The children of an element are put
there in reverse, so that the first one comes next. -/
def readTurn (dom : Dom) : List NodeId × String → List NodeId × String
  | (pending, seen) =>
    match pending.getLast? with
    | none => (pending, seen)
    | some id =>
      match dom.get? id with
      | none => (pending.dropLast, seen)
      | some ⟨.text s, _, _⟩ => (pending.dropLast, seen ++ s)
      | some ⟨.element _ _, _, children⟩ => (pending.dropLast ++ children.reverse, seen)

/-- The list that `collectWithin` goes through is the stack, read from its end. -/
theorem iterate_readTurn_eq {turns : Nat} {pending : List NodeId} {seen s : String}
    (h : dom.collectWithin turns pending seen = some s) :
    dom.readTurn^[turns] (pending.reverse, seen) = ([], s) := by
  induction turns generalizing pending seen with
  | zero =>
    cases pending with
    | nil => exact congrArg (Prod.mk []) (Option.some.inj h)
    | cons id rest => cases h
  | succ turns ih =>
    rw [Function.iterate_succ_apply]
    cases pending with
    | nil =>
      rw [collectWithin] at h
      exact ih (by rw [collectWithin, h])
    | cons id rest =>
      rw [collectWithin] at h
      rw [List.reverse_cons, readTurn, List.getLast?_concat, List.dropLast_concat]
      simp only
      cases hn : dom.get? id with
      | none =>
        rw [hn] at h
        exact ih h
      | some node =>
        rw [hn] at h
        obtain ⟨content, parent, children⟩ := node
        cases content with
        | text s => exact ih h
        | element tag attributes =>
          have hturns := ih h
          rw [List.reverse_append] at hturns
          exact hturns

/-! ## Document order -/

mutual

/-- The text nodes of a hosted tree, in preorder, make up its text. -/
theorem Hosts.join_texts : ∀ {parent? : Option NodeId} {t : Tree NodeId}, Hosts dom parent? t →
    t.WellFormed → String.join (t.labels.filterMap dom.text?) = t.text
  | _, .node a (.text s) ts, h, hw => by
    obtain rfl : ts = [] := hw.2.1 s rfl
    have htext : dom.text? a = some s := by
      rw [text?, content?, h.1]
      rfl
    rw [Tree.labels, List.filterMap_cons_some htext, Tree.labelsOfAll, List.filterMap_nil,
      Tree.text]
    simp
  | _, .node a (.element tag attributes) ts, h, hw => by
    have htext : dom.text? a = none := by
      rw [text?, content?, h.1]
      rfl
    rw [Tree.labels, List.filterMap_cons_none htext, HostsAll.join_texts h.2 hw.2.2, Tree.text]

theorem HostsAll.join_texts : ∀ {parent? : Option NodeId} {ts : List (Tree NodeId)},
    HostsAll dom parent? ts → Tree.WellFormedAll ts →
    String.join ((Tree.labelsOfAll ts).filterMap dom.text?) = Tree.textOfAll ts
  | _, [], _, _ => by
    rw [Tree.labelsOfAll, Tree.textOfAll]
    rfl
  | _, t :: rest, h, hw => by
    rw [Tree.labelsOfAll, List.filterMap_append, String.join_append, Hosts.join_texts h.1 hw.1,
      HostsAll.join_texts h.2 hw.2, Tree.textOfAll]

end

/-- The text of a node is read in document order. -/
structure ReadsInOrder (dom : Dom) (id : NodeId) : Prop where
  /-- The loop is at its end when each node at or below the given one has had its turn. A stale
  handle has a turn as well. -/
  ends : ∀ turns, 0 < turns → (dom.preorder [id]).length ≤ turns →
    dom.readTurn^[turns] ([id], "") = ([], dom.textContent id)
  /-- The text of an element is that of its children. -/
  recursive : dom.textContent id =
    match dom.content? id with
    | some (.text s) => s
    | some (.element _ _) => String.join ((dom.children id).map dom.textContent)
    | none => ""
  /-- It is what the text nodes at and below the node hold, in document order. -/
  texts : dom.textContent id = String.join ((dom.preorder [id]).filterMap dom.text?)
  mem_iff : ∀ other, other ∈ dom.preorder [id] ↔ dom.contains other = true ∧ dom.Below other id
  nodup : (dom.preorder [id]).Nodup
  /-- A node comes before what is below it, child by child. -/
  order : dom.contains id = true → dom.preorder [id] = id :: dom.preorder (dom.children id)

theorem preorder_of_stale (hid : dom.contains id = false) : dom.preorder [id] = [] := by
  simp [preorder, tree?_of_stale hid]

theorem textContent_of_stale (hid : dom.contains id = false) : dom.textContent id = "" := by
  refine collectText_eq ?_
  rw [collectWithin, get?_eq_none hid, collectWithin]

theorem Linked.readsInOrder_of_stale (h : dom.Linked) (hid : dom.contains id = false) :
    ReadsInOrder dom id := by
  have hpre := preorder_of_stale hid
  have htext := textContent_of_stale hid
  refine ⟨fun turns hpos _ => ?_, ?_, ?_, fun other => ?_, ?_, fun hc => ?_⟩
  · obtain ⟨turns, rfl⟩ := Nat.exists_eq_succ_of_ne_zero hpos.ne'
    have hrun : dom.collectWithin (turns + 1) [id] "" = some "" := by
      rw [collectWithin, get?_eq_none hid]
      simp only
      rw [collectWithin]
    rw [htext]
    exact iterate_readTurn_eq hrun
  · rw [htext, content?, get?_eq_none hid]
    rfl
  · rw [htext, hpre]
    rfl
  · rw [hpre]
    refine iff_of_false List.not_mem_nil ?_
    rintro ⟨ho, hb⟩
    rcases Relation.reflTransGen_iff_eq_or_transGen.1 hb with rfl | hu
    · exact Bool.false_ne_true (hid.symm.trans ho)
    · exact Bool.false_ne_true (hid.symm.trans (h.contains_of_under hu).2)
  · rw [hpre]
    exact List.nodup_nil
  · exact absurd (hid.symm.trans hc) Bool.false_ne_true

theorem IsForest.readsInOrder_of_isTreeOf {t : Tree NodeId} (ht : IsForest.IsTreeOf dom id t) :
    ReadsInOrder dom id := by
  have hpre : dom.preorder [id] = t.labels := by simp [preorder, ht.tree?_eq]
  have htext : dom.textContent id = t.text := by
    rw [← ht.label]
    exact ht.hosts.textContent_eq ht.nodup
  have hroot := ht.hosts.get?_label
  rw [ht.label] at hroot
  have hchildren : dom.children id = t.children.map Tree.label := children_eq hroot
  have hbelow : (Tree.labelsOfAll t.children).Nodup := by
    have := ht.nodup
    rw [t.labels_eq, List.nodup_cons] at this
    exact this.2
  refine ⟨fun turns _ hturns => ?_, ?_, ?_, fun other => ?_, hpre ▸ ht.nodup, fun _ => ?_⟩
  · rw [hpre] at hturns
    have hrun := ht.hosts.collectWithin_eq hturns
    rw [ht.label, ← htext] at hrun
    exact iterate_readTurn_eq hrun
  · rw [htext, content?, hroot, hchildren, ht.hosts.children.map_textContent hbelow,
      Tree.join_map_text]
    obtain ⟨a, c, ts⟩ := t
    cases c with
    | text s => rw [Tree.text]; rfl
    | element tag attributes => rw [Tree.text]; rfl
  · rw [htext, hpre, ht.hosts.join_texts ht.wellFormed]
  · rw [hpre, ht.mem_iff]
    refine ⟨fun hb => ⟨?_, hb⟩, And.right⟩
    exact ht.hosts.isSome_of_mem ((ht.mem_iff other).2 hb)
  · rw [hpre, hchildren, ht.hosts.children.preorder_eq hbelow, t.labels_eq, ht.label]

/-- In a forest, the text of every node is read in document order. -/
theorem IsForest.readsInOrder (h : dom.IsForest) (id : NodeId) : ReadsInOrder dom id := by
  cases hid : dom.contains id with
  | false => exact h.linked.readsInOrder_of_stale hid
  | true =>
    obtain ⟨t, ht⟩ := h.exists_isTreeOf hid
    exact IsForest.readsInOrder_of_isTreeOf ht

/-- What is below a child is read before the next child. -/
theorem IsForest.readsInOrder_of_nested :
    let paragraph : Tree Unit := .node () (.element "p" []) [.node () (.text "a") [],
      .node () (.element "b" []) [.node () (.element "i" []) [.node () (.text "b") []],
        .node () (.text "c") []], .node () (.text "d") []]
    let dom := (Dom.empty.graft paragraph).1
    dom.IsForest ∧ ReadsInOrder dom ⟨0, 0⟩ ∧ dom.textContent ⟨0, 0⟩ = "abcd" := by
  intro paragraph dom
  have hw : paragraph.WellFormed := by
    simp [paragraph, Tree.WellFormed, Tree.WellFormedAll, Content.WellFormed, OrderedMap.Distinct]
  obtain ⟨_, -, -, hconsists⟩ := consistsOf_empty.graft hw
  have hforest : dom.IsForest := hconsists.isForest
  refine ⟨hforest, hforest.readsInOrder ⟨0, 0⟩, ?_⟩
  simp only [dom, paragraph]
  decide +kernel

end Dom

end LiveMarkup
