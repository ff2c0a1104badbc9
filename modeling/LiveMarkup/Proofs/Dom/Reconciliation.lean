import LiveMarkup.Proofs.Dom.Swapping

/-!
# Reconciling hosted trees

Reconciling a hosted tree with another one that is apart from it puts an aligned tree in its place
(`reconcile_hosted`), and touches nothing else but the list of the parent's children. The proof
follows the recursion: each step of `alignChildren` is a swap below the parent, after which what is
left is apart still (`ApartAll.rest`).
-/

namespace LiveMarkup

namespace Dom

/-- A live tree below a parent and a fresh one that have no nodes in common. -/
structure Apart (dom : Dom) (parent? : Option NodeId) (live : Tree NodeId)
    (freshParent? : Option NodeId) (fresh : Tree NodeId) : Prop where
  sound : dom.Sound
  hostsLive : Hosts dom parent? live
  hostsFresh : Hosts dom freshParent? fresh
  nodupLive : live.labels.Nodup
  nodupFresh : fresh.labels.Nodup
  disjoint : ∀ id ∈ live.labels, id ∉ fresh.labels
  wellFormedLive : live.WellFormed
  wellFormedFresh : fresh.WellFormed
  hasParent : ∀ p, parent? = some p → (dom.get? p).isSome ∧ p ∉ live.labels

/-- Live trees at the end of the children of a parent, and fresh ones, that have no nodes in common.
The children before them are `kept`. -/
structure ApartAll (dom : Dom) (parent : NodeId) (kept : List NodeId) (live : List (Tree NodeId))
    (freshParent? : Option NodeId) (fresh : List (Tree NodeId)) : Prop where
  sound : dom.Sound
  hasParent : ∃ node, dom.get? parent = some node ∧ node.children = kept ++ live.map Tree.label
  hostsLive : HostsAll dom (some parent) live
  hostsFresh : HostsAll dom freshParent? fresh
  nodupLive : (Tree.labelsOfAll live).Nodup
  nodupFresh : (Tree.labelsOfAll fresh).Nodup
  disjoint : ∀ id ∈ Tree.labelsOfAll live, id ∉ Tree.labelsOfAll fresh
  wellFormedLive : Tree.WellFormedAll live
  wellFormedFresh : Tree.WellFormedAll fresh
  notMemLive : parent ∉ Tree.labelsOfAll live
  notMemFresh : parent ∉ Tree.labelsOfAll fresh
  notMemKept : ∀ id ∈ kept, id ∉ Tree.labelsOfAll live

variable {dom dom' : Dom} {parent : NodeId} {kept kept' : List NodeId} {t u : Tree NodeId}
  {ts us vs : List (Tree NodeId)} {freshParent? : Option NodeId}

/-- The first two trees. -/
theorem ApartAll.first (h : ApartAll dom parent kept (t :: ts) freshParent? (u :: us)) :
    Apart dom (some parent) t freshParent? u := by
  have hlive := h.nodupLive
  have hfresh := h.nodupFresh
  rw [Tree.labelsOfAll] at hlive hfresh
  refine ⟨h.sound, h.hostsLive.1, h.hostsFresh.1, hlive.of_append_left, hfresh.of_append_left,
    fun id hm hm' => ?_, h.wellFormedLive.1, h.wellFormedFresh.1, fun p hp => ?_⟩
  · exact h.disjoint id (List.mem_append_left _ hm) (List.mem_append_left _ hm')
  · cases hp
    obtain ⟨node, hnode, -⟩ := h.hasParent
    exact ⟨by rw [hnode]; rfl, fun hm => h.notMemLive (List.mem_append_left _ hm)⟩

/-- After a swap, what is left is apart still. -/
theorem ApartAll.rest (ts' us' : List (Tree NodeId))
    (h : ApartAll dom parent kept (ts' ++ ts) freshParent? (us' ++ us))
    (hs : SwapsAll dom dom' parent (kept' ++ ts.map Tree.label) ts' vs)
    (hk : ∀ id ∈ kept', id ∉ Tree.labelsOfAll ts) :
    ApartAll dom' parent kept' ts freshParent? us := by
  obtain ⟨hsound, ⟨node, hnode, -⟩, hlive, hfresh, hln, hfn, hd, hlw, hfw, hol, hof, -⟩ := h
  rw [HostsAll.append_iff] at hlive hfresh
  rw [Tree.wellFormedAll_append_iff] at hlw hfw
  simp only [Tree.labelsOfAll_append, List.mem_append, not_or] at hln hfn hd hol hof
  have hdl : ∀ id ∈ Tree.labelsOfAll ts, id ∉ Tree.labelsOfAll ts' := fun id hm hm' =>
    List.disjoint_of_nodup_append hln hm' hm
  have hdf : ∀ id ∈ Tree.labelsOfAll us, id ∉ Tree.labelsOfAll ts' := fun id hm hm' =>
    (hd id (.inl hm')).2 hm
  refine ⟨hs.sound, ?_, hs.congr_hosts hlive.2 hol.2 hdl, hs.congr_hosts hfresh.2 hof.2 hdf,
    hln.of_append_right, hfn.of_append_right, fun id hm => (hd id (.inr hm)).2, hlw.2, hfw.2,
    hol.2, hof.2, hk⟩
  refine ⟨{ node with children := kept' ++ ts.map Tree.label }, ?_, rfl⟩
  rw [(hs.get?_of_isSome (by rw [hnode]; rfl) hol.1).2, hnode, Option.map_some, editChildren_self]

/-- Two trees were reconciled: an aligned one stands in the place of the live one. -/
def Reconciled (p : Patch) (result : Patch × NodeId) (parent? : Option NodeId)
    (live fresh : Tree NodeId) : Prop :=
  ∃ made edits, result.2 = made.label ∧ Aligned live fresh made edits ∧
    result.1.edits = p.edits ++ edits ∧ Swaps p.dom result.1.dom parent? live made

/-- Hosted trees with at most `n` live nodes are reconciled. -/
def Reconciles (n : Nat) (each : Patch → NodeId → NodeId → Patch × NodeId) : Prop :=
  ∀ (p : Patch) (parent? freshParent? : Option NodeId) (live fresh : Tree NodeId),
    Apart p.dom parent? live freshParent? fresh → live.labels.length ≤ n →
    Reconciled p (each p live.label fresh.label) parent? live fresh

theorem copyTree_hosted {p : Patch} (hs : p.dom.Sound) {freshParent? : Option NodeId}
    {fresh : Tree NodeId} (h : Hosts p.dom freshParent? fresh) (hn : fresh.labels.Nodup) :
    ∃ made, (p.copyTree fresh.label).2 = made.label ∧ fresh.Copies made ∧
      (p.copyTree fresh.label).1.edits =
        p.edits ++ [.copyTree fresh.label made.label made.labels] ∧
      Grafts p.dom (p.copyTree fresh.label).1.dom made := by
  obtain ⟨made, hlabel, hcopy, hgraft⟩ := grafts_copyTree hs h hn
  refine ⟨made, hlabel, hcopy, ?_, hgraft⟩
  rw [Patch.copyTree]
  simp only [Patch.note, hlabel, hgraft.hosts.tree?_eq hgraft.nodup, Option.map_some,
    Option.getD_some]

section

variable {n : Nat} {each : Patch → NodeId → NodeId → Patch × NodeId}

/-- A step at the first trees, and the rest after it. -/
theorem ApartAll.trans {dom'' : Dom} {vs' : List (Tree NodeId)} {kids : List NodeId}
    (ts' us' : List (Tree NodeId))
    (h : ApartAll dom parent kept (ts' ++ ts) freshParent? (us' ++ us))
    (hs : SwapsAll dom dom' parent (kept' ++ ts.map Tree.label) ts' vs')
    (hrest : SwapsAll dom' dom'' parent kids ts vs) :
    SwapsAll dom dom'' parent kids (ts' ++ ts) (vs' ++ vs) := by
  obtain ⟨node, hnode, -⟩ := h.hasParent
  have hlive := HostsAll.append_iff.1 h.hostsLive
  have hnodup := h.nodupLive
  have hout := h.notMemLive
  rw [Tree.labelsOfAll_append] at hnodup hout
  exact hs.trans hrest (by rw [hnode]; rfl) (fun hm => hout (List.mem_append_left _ hm)) hlive.2
    fun id hm hm' => List.disjoint_of_nodup_append hnodup hm' hm

/-- The nodes of trees that take the place of others are not among the nodes of the rest. -/
theorem ApartAll.notMem_of_swapsAll {us' vs' : List (Tree NodeId)} {kids : List NodeId}
    (ts' : List (Tree NodeId))
    (h : ApartAll dom parent kept (ts' ++ ts) freshParent? us')
    (hs : SwapsAll dom dom' parent kids ts' vs') :
    ∀ id ∈ kept ++ vs'.map Tree.label, id ∉ Tree.labelsOfAll ts := by
  intro id hm hm'
  have hnodup := h.nodupLive
  have hkept := h.notMemKept id
  rw [Tree.labelsOfAll_append] at hnodup hkept
  rcases List.mem_append.1 hm with hm | hm
  · exact hkept hm (List.mem_append_right _ hm')
  · have hlive := (HostsAll.append_iff.1 h.hostsLive).2.isSome_of_mem hm'
    exact (hs.get?_of_isSome hlive fun ho => List.disjoint_of_nodup_append hnodup ho hm').1
      (Tree.map_label_subset vs' hm)

theorem alignChildren_nil_cons (each : Patch → NodeId → NodeId → Patch) (parent : NodeId)
    (p : Patch) (u : NodeId) (us : List NodeId) :
    Patch.alignChildren each parent p [] (u :: us) =
      Patch.alignChildren each parent ((p.copyTree u).1.append parent (p.copyTree u).2) [] us := by
  rw [Patch.alignChildren]

/-- The children of a hosted node are matched in order. -/
theorem alignChildren_hosted (heach : Reconciles n each) : ∀ {p : Patch} {kept : List NodeId}
    {ts us : List (Tree NodeId)}, ApartAll p.dom parent kept ts freshParent? us →
    (Tree.labelsOfAll ts).length ≤ n →
    ∃ vs edits, AlignedAll parent ts us vs edits ∧
      (Patch.alignChildren (fun p l f => (each p l f).1) parent p (ts.map Tree.label)
        (us.map Tree.label)).edits = p.edits ++ edits ∧
      SwapsAll p.dom (Patch.alignChildren (fun p l f => (each p l f).1) parent p (ts.map Tree.label)
        (us.map Tree.label)).dom parent (kept ++ vs.map Tree.label) ts vs
  | p, kept, [], [], h, _ => by
    obtain ⟨node, hnode, hkids⟩ := h.hasParent
    rw [List.map_nil, Patch.alignChildren]
    exact ⟨[], [], .done parent, (List.append_nil _).symm, hkids ▸ .nil h.sound hnode⟩
  | p, kept, t :: ts, u :: us, h, hn => by
    obtain ⟨node, hnode, hkids⟩ := h.hasParent
    rw [Tree.labelsOfAll, List.length_append] at hn
    obtain ⟨v, edits, -, haligned, hedits, hswap⟩ := heach _ _ _ _ _ h.first (by omega)
    have hstep := SwapsAll.of_swaps hswap hnode hkids fun hm =>
      h.notMemKept _ hm (List.mem_append_left _ t.label_mem_labels)
    rw [List.append_cons] at hstep
    obtain ⟨vs, edits', halignedAll, hedits', hswaps⟩ := alignChildren_hosted heach
      (h.rest [t] [u] hstep (h.notMem_of_swapsAll [t] hstep)) (by omega)
    rw [List.map_cons, List.map_cons, Patch.alignChildren]
    refine ⟨v :: vs, edits ++ edits', .matched haligned halignedAll, ?_, ?_⟩
    · rw [hedits', hedits, List.append_assoc]
    · rw [List.map_cons, List.append_cons]
      exact h.trans [t] [u] hstep hswaps
  | p, kept, t :: ts, [], h, hn => by
    obtain ⟨node, hnode, hkids⟩ := h.hasParent
    rw [Tree.labelsOfAll, List.length_append] at hn
    have hnodup := h.nodupLive
    rw [Tree.labelsOfAll] at hnodup
    have hdrop := drops_remove h.hostsLive.1 hnodup.of_append_left fun q hq hm => by
      cases hq
      exact h.notMemLive (List.mem_append_left _ hm)
    have hstep := SwapsAll.of_drops h.sound hdrop hnode hkids
      (fun hm => h.notMemKept _ hm (List.mem_append_left _ t.label_mem_labels))
      fun hm =>
        List.disjoint_of_nodup_append hnodup t.label_mem_labels (Tree.map_label_subset ts hm)
    obtain ⟨vs, edits, halignedAll, hedits, hswaps⟩ := alignChildren_hosted (p := p.remove t.label)
      heach (h.rest [t] [] hstep
        fun id hm hm' => h.notMemKept id hm (List.mem_append_right _ hm')) (by omega)
    obtain rfl : vs = [] := by cases halignedAll <;> rfl
    rw [List.map_cons, List.map_nil, Patch.alignChildren]
    refine ⟨[], .remove t.label :: edits, .surplus halignedAll, ?_, ?_⟩
    · exact hedits.trans (List.append_assoc ..)
    · exact h.trans [t] [] hstep hswaps
  | p, kept, [], u :: us, h, hn => by
    obtain ⟨node, hnode, hkids⟩ := h.hasParent
    have hnodup := h.nodupFresh
    rw [Tree.labelsOfAll] at hnodup
    obtain ⟨v, hlabel, hcopy, hedits, hgraft⟩ :=
      copyTree_hosted h.sound h.hostsFresh.1 hnodup.of_append_left
    have hstep : SwapsAll p.dom ((p.copyTree u.label).1.append parent v.label).dom parent
        (kept ++ [v.label] ++ ([] : List (Tree NodeId)).map Tree.label) [] [v] := by
      have := SwapsAll.of_graftsAll (hgraft.append (by rw [hnode]; rfl)) hnode
      rw [hkids, List.map_nil, List.append_nil] at this
      rw [List.map_nil, List.append_nil]
      exact this
    obtain ⟨vs, edits, halignedAll, hedits', hswaps⟩ := alignChildren_hosted heach
      (p := (p.copyTree u.label).1.append parent v.label)
      (h.rest [] [u] hstep fun _ _ => List.not_mem_nil) (Nat.zero_le n)
    rw [List.map_cons, List.map_nil, alignChildren_nil_cons, hlabel]
    refine ⟨v :: vs, _, .missing hcopy halignedAll, ?_, ?_⟩
    · refine hedits'.trans ?_
      simp only [Patch.append, Patch.note, hedits, List.append_assoc, List.nil_append,
        List.cons_append]
    · rw [List.map_cons, List.append_cons]
      exact h.trans [] [u] hstep hswaps
termination_by _ _ ts us => ts.length + us.length

end

variable {p : Patch} {parent? : Option NodeId} {levels : Nat}

theorem content?_eq (h : Hosts dom parent? t) : dom.content? t.label = some t.content := by
  rw [content?, h.get?_label]
  rfl

/-- Nodes that do not match: the live tree is replaced by a copy of the fresh one. -/
theorem reconciled_of_replace {live fresh : Tree NodeId}
    (h : Apart p.dom parent? live freshParent? fresh)
    (hm : Patch.Match.ofContents (some live.content) (some fresh.content) = .replace) :
    Reconciled p (Patch.reconcile (levels + 1) p live.label fresh.label) parent? live fresh := by
  obtain ⟨made, hlabel, hcopy, hedits, hgraft⟩ := copyTree_hosted h.sound h.hostsFresh h.nodupFresh
  have hdisjoint : live.labels.Disjoint made.labels := fun id hl hm => by
    have := h.hostsLive.isSome_of_mem hl
    rw [hgraft.made id hm] at this
    cases this
  have hparent : ∀ q, parent? = some q → q ∉ made.labels := fun q hq hm => by
    have := (h.hasParent q hq).1
    rw [hgraft.made q hm] at this
    cases this
  have hreplace := displaces_replace (hgraft.congr_hosts h.hostsLive) hgraft.hosts h.nodupLive
    hgraft.nodup hdisjoint (fun q hq => (h.hasParent q hq).2) hparent
  have heq : Patch.reconcile (levels + 1) p live.label fresh.label =
      ((p.copyTree fresh.label).1.replace live.label made.label, made.label) := by
    rw [Patch.reconcile, content?_eq h.hostsLive, content?_eq h.hostsFresh, hm]
    simp only [hlabel]
  rw [heq]
  refine ⟨made, _, rfl, .replaced hm hcopy, ?_, .of_displaces hgraft hreplace⟩
  simp only [Patch.replace, Patch.note, hedits, List.append_assoc, List.singleton_append]

/-- Two text nodes: the live one gets the text of the fresh one. -/
theorem reconciled_of_text {a b : NodeId} {s s' : String}
    (h : Apart p.dom parent? (.node a (.text s) []) freshParent? (.node b (.text s') [])) :
    Reconciled p (Patch.reconcile (levels + 1) p a b) parent? (.node a (.text s) [])
      (.node b (.text s') []) := by
  have hlive := h.hostsLive.1
  have htext : p.dom.text? a = some s := by
    rw [text?, content?, hlive]
    rfl
  have heq : Patch.reconcile (levels + 1) p a b = (if s = s' then p else p.setText a s', a) := by
    have hm : Patch.Match.ofContents (some (.text s)) (some (.text s')) = .keepText s' := rfl
    have ha : p.dom.content? a = some (.text s) := content?_eq h.hostsLive
    have hb : p.dom.content? b = some (.text s') := content?_eq h.hostsFresh
    rw [Patch.reconcile, ha, hb]
    simp only [hm, htext, Option.some.injEq]
  have hstart : Retouches p.dom p.dom a (.text s) := .refl hlive
  rw [heq]
  by_cases hs : s = s'
  · subst hs
    rw [if_pos rfl]
    refine ⟨.node a (.text s) [], _, rfl, .text a b s s, ?_, ?_⟩
    · simp
    · exact .of_children h.hostsLive h.nodupLive hstart (.nil h.sound hlive)
  · rw [if_neg hs]
    have hset := hstart.setText s'
    refine ⟨.node a (.text s') [], _, rfl, .text a b s s', ?_, ?_⟩
    · rw [if_neg hs]
      rfl
    · exact .of_children h.hostsLive h.nodupLive hset
        (.nil (hset.sound h.sound) (hset.get?_self hlive))

/-- Two elements with one tag: the live one gets the attributes of the fresh one, and the children
are reconciled. -/
theorem reconciled_of_element (heach : Reconciles levels (Patch.reconcile levels)) {a b : NodeId}
    {tag : String} {attributes wanted : OrderedMap String String} {ts us : List (Tree NodeId)}
    (h : Apart p.dom parent? (.node a (.element tag attributes) ts) freshParent?
      (.node b (.element tag wanted) us)) (hn : (Tree.labelsOfAll ts).length ≤ levels) :
    Reconciled p (Patch.reconcile (levels + 1) p a b) parent? (.node a (.element tag attributes) ts)
      (.node b (.element tag wanted) us) := by
  have hlive := h.hostsLive.1
  have hfresh := h.hostsFresh.1
  obtain ⟨hr, hedits⟩ := Patch.retouches_alignAttributes hlive hfresh rfl rfl
    h.wellFormedLive.1 h.wellFormedFresh.1
  have hnodup := h.nodupLive
  have hnodup' := h.nodupFresh
  have hnotMem : a ∉ (Tree.node b (.element tag wanted) us).labels :=
    h.disjoint a List.mem_cons_self
  have hhosts := hr.hosts h.hostsLive h.nodupLive
  have hhosts' := h.hostsFresh.congr fun x hx => by
    rw [hr.get?, if_neg fun e : x = a => hnotMem (e ▸ hx)]
  rw [Tree.labels, List.nodup_cons] at hnodup hnodup'
  rw [Tree.labels, List.mem_cons, not_or] at hnotMem
  have hchildren : ApartAll (p.alignAttributes a b).dom a [] ts (some b) us :=
    ⟨hr.sound h.sound, ⟨_, hr.get?_self hlive, rfl⟩, hhosts.2, hhosts'.2, hnodup.2, hnodup'.2,
      fun x hx hx' => h.disjoint x (List.mem_cons_of_mem _ hx) (List.mem_cons_of_mem _ hx'),
      h.wellFormedLive.2.2, h.wellFormedFresh.2.2, hnodup.1, hnotMem.2, fun _ hx => by cases hx⟩
  obtain ⟨vs, edits, haligned, hedits', hswaps⟩ := alignChildren_hosted heach hchildren hn
  have heq : Patch.reconcile (levels + 1) p a b =
      (Patch.alignChildren (fun p l f => (Patch.reconcile levels p l f).1) a
        (p.alignAttributes a b) (ts.map Tree.label) (us.map Tree.label), a) := by
    have hm : Patch.Match.ofContents (some (.element tag attributes))
        (some (.element tag wanted)) = .keepElement := if_pos rfl
    have ha : p.dom.content? a = some (.element tag attributes) := content?_eq h.hostsLive
    have hb : p.dom.content? b = some (.element tag wanted) := content?_eq h.hostsFresh
    have hkids : (p.alignAttributes a b).dom.children a = ts.map Tree.label := by
      rw [children, hhosts.1]
      rfl
    have hkids' : (p.alignAttributes a b).dom.children b = us.map Tree.label := by
      rw [children, hhosts'.1]
      rfl
    rw [Patch.reconcile, ha, hb]
    simp only [hm, hkids, hkids']
  rw [heq]
  refine ⟨.node a (.element tag (attributes.align wanted)) vs, _, rfl, .element haligned, ?_,
    .of_children h.hostsLive h.nodupLive hr hswaps⟩
  rw [hedits', hedits, List.append_assoc]

/-- Reconciling hosted trees with as many levels as the live one has nodes. -/
theorem reconciles_reconcile (levels : Nat) : Reconciles levels (Patch.reconcile levels) := by
  induction levels with
  | zero =>
    intro p parent? freshParent? live fresh _ hn
    rw [live.labels_eq] at hn
    cases hn
  | succ levels ih =>
    intro p parent? freshParent? live fresh h hn
    obtain ⟨a, c, ts⟩ := live
    obtain ⟨b, d, us⟩ := fresh
    rw [Tree.labels, List.length_cons, Nat.add_le_add_iff_right] at hn
    cases c with
    | text s =>
      cases d with
      | text s' =>
        obtain rfl := h.wellFormedLive.2.1 s rfl
        obtain rfl := h.wellFormedFresh.2.1 s' rfl
        exact reconciled_of_text h
      | element tag wanted => exact reconciled_of_replace h rfl
    | element tag attributes =>
      cases d with
      | text s' => exact reconciled_of_replace h rfl
      | element tag' wanted =>
        by_cases htag : tag = tag'
        · subst htag
          exact reconciled_of_element ih h hn
        · exact reconciled_of_replace h (if_neg htag)

/-- Reconciling in the arena: there are levels enough. -/
theorem reconciled_reconcile {live fresh : Tree NodeId}
    (h : Apart dom parent? live freshParent? fresh) :
    Reconciled ⟨dom, []⟩ (dom.reconcile live.label fresh.label) parent? live fresh :=
  reconciles_reconcile _ ⟨dom, []⟩ parent? freshParent? live fresh h
    (Nat.le_succ_of_le (h.hostsLive.length_le h.nodupLive))

end Dom

end LiveMarkup
