import LiveMarkup.Proofs.Dom.Growth
import LiveMarkup.Proofs.Dom.Retouching
import Mathlib.Data.List.TakeWhile

/-!
# Trees that grow in the arena

Building trees from tokens makes new nodes, which form the trees that grow from the tokens
(`plants_build`), and touches no other node. Every step keeps that the arena bears what has
grown so far (`Bears`): a node is put behind the last ones below the innermost open element
(`Bears.place`), or text is joined to the last one (`Bears.joinText`).
-/

namespace LiveMarkup

namespace Growth

variable {α : Type}

/-- The trees before the place where the next one comes. -/
def last (g : Growth α) : List (Tree α) :=
  match g.openBranches with
  | [] => g.roots
  | b :: _ => b.children

/-- What is around the place where the next tree comes. -/
def frame (g : Growth α) : Growth α := g.edit fun _ => []

/-- The innermost open element. -/
def top (g : Growth α) : Option α := g.openBranches.head?.map Branch.label

theorem last_edit (f : List (Tree α) → List (Tree α)) (g : Growth α) :
    (g.edit f).last = f g.last := by
  obtain ⟨bs, roots⟩ := g
  cases bs <;> rfl

theorem frame_edit (f : List (Tree α) → List (Tree α)) (g : Growth α) :
    (g.edit f).frame = g.frame := by
  obtain ⟨bs, roots⟩ := g
  cases bs <;> rfl

/-- Text behind something else makes a node. -/
theorem edit_joinText_eq {a : α} {s : String} {g : Growth α}
    (h : joinText a s g.last = g.last ++ [.node a (.text s) []]) :
    g.edit (joinText a s) = g.edit (· ++ [.node a (.text s) []]) := by
  obtain ⟨bs, roots⟩ := g
  cases bs with
  | nil => exact congrArg (Growth.mk []) h
  | cons b rest =>
    rw [edit, edit]
    exact congrArg (fun ts => Growth.mk (⟨b.label, b.content, ts⟩ :: rest) roots) h

theorem top_edit (f : List (Tree α) → List (Tree α)) (g : Growth α) : (g.edit f).top = g.top := by
  obtain ⟨bs, roots⟩ := g
  cases bs <;> rfl

theorem map_label_edit (f : List (Tree α) → List (Tree α)) (g : Growth α) :
    (g.edit f).openBranches.map Branch.label = g.openBranches.map Branch.label := by
  obtain ⟨bs, roots⟩ := g
  cases bs <;> rfl

theorem labelsOfAll_enclose (ts : List (Tree α)) (bs : List (Branch α)) :
    (Tree.labelsOfAll (enclose ts bs)).Perm
      (Tree.labelsOfAll ts ++ Tree.labelsOfAll (enclose [] bs)) := by
  induction bs generalizing ts with
  | nil => simp [enclose, Tree.labelsOfAll]
  | cons b rest ih =>
    have hsplit : (Tree.labelsOfAll [b.tree ts]).Perm
        (Tree.labelsOfAll ts ++ Tree.labelsOfAll [b.tree []]) := by
      simp only [Branch.tree, Tree.labelsOfAll, Tree.labels, Tree.labelsOfAll_append,
        List.append_nil]
      exact (List.perm_append_comm.cons b.label).trans List.perm_middle.symm
    refine (ih [b.tree ts]).trans ((hsplit.append_right _).trans ?_)
    rw [List.append_assoc]
    exact (ih [b.tree []]).symm.append_left _

/-- The nodes are those before the place where the next tree comes, and those around it. -/
theorem labelsOfAll_trees (g : Growth α) :
    (Tree.labelsOfAll g.trees).Perm
      (Tree.labelsOfAll g.last ++ Tree.labelsOfAll g.frame.trees) := by
  obtain ⟨bs, roots⟩ := g
  cases bs with
  | nil => simp [trees, last, frame, edit, enclose, Tree.labelsOfAll]
  | cons b rest =>
    have hsplit : (Tree.labelsOfAll [b.tree []]).Perm
        (Tree.labelsOfAll b.children ++
          Tree.labelsOfAll [(⟨b.label, b.content, []⟩ : Branch α).tree []]) := by
      simp only [Branch.tree, Tree.labelsOfAll, Tree.labels, List.append_nil]
      exact (List.perm_append_singleton _ _).symm
    simp only [trees, last, frame, edit, enclose, Tree.labelsOfAll_append]
    have hb := labelsOfAll_enclose [b.tree []] rest
    have hempty := labelsOfAll_enclose [(⟨b.label, b.content, []⟩ : Branch α).tree []] rest
    refine ((hb.trans ((hsplit.append_right _).trans ?_)).append_left _).trans
      (List.perm_append_comm_assoc _ _ _)
    rw [List.append_assoc]
    exact hempty.symm.append_left _

theorem labelsOfAll_edit_append (g : Growth α) (t : Tree α) :
    (Tree.labelsOfAll (g.edit (· ++ [t])).trees).Perm (t.labels ++ Tree.labelsOfAll g.trees) := by
  rw [trees_edit_append, trees, Tree.labelsOfAll_append, Tree.labelsOfAll_append]
  refine ((labelsOfAll_enclose [t] g.openBranches).append_left _).trans ?_
  rw [Tree.labelsOfAll_singleton]
  exact List.perm_append_comm_assoc _ _ _

theorem mem_labelsOfAll_frame {g : Growth α} {a : α} (h : g.top = some a) :
    a ∈ Tree.labelsOfAll g.frame.trees := by
  obtain ⟨bs, roots⟩ := g
  cases bs with
  | nil => cases h
  | cons b rest =>
    obtain rfl := Option.some.inj h
    rw [trees, Tree.labelsOfAll_append]
    refine List.mem_append_right _ ((labelsOfAll_enclose _ rest).mem_iff.2 ?_)
    simp [Branch.tree, Tree.labelsOfAll, Tree.labels]

theorem map_label_enclose {t u : Tree α} (h : t.label = u.label) (bs : List (Branch α)) :
    (enclose [t] bs).map Tree.label = (enclose [u] bs).map Tree.label := by
  induction bs generalizing t u with
  | nil => simp [enclose, h]
  | cons b rest ih => exact ih rfl

theorem map_label_trees_edit {f : List (Tree α) → List (Tree α)} {g : Growth α}
    (h : g.openBranches ≠ [] ∨ (f g.roots).map Tree.label = g.roots.map Tree.label) :
    (g.edit f).trees.map Tree.label = g.trees.map Tree.label := by
  obtain ⟨bs, roots⟩ := g
  cases bs with
  | nil => simpa [trees, edit, enclose] using h
  | cons b rest =>
    simp only [trees, edit, enclose, List.map_append]
    rw [map_label_enclose (t := (⟨b.label, b.content, f b.children⟩ : Branch α).tree [])
      (u := b.tree []) rfl]

end Growth

namespace Dom

/-- New nodes are put into the arena, of which trees without parents are made. -/
structure Plants (dom dom' : Dom) (new : List (Tree NodeId)) : Prop where
  hosts : HostsAll dom' none new
  nodup : (Tree.labelsOfAll new).Nodup
  made : ∀ id ∈ Tree.labelsOfAll new, dom.get? id = none
  get? : ∀ id, id ∉ Tree.labelsOfAll new → dom'.get? id = dom.get? id
  size : dom'.size = dom.size + (Tree.labelsOfAll new).length
  sound : dom'.Sound

/-- The arena hosts open elements; the given nodes come last below the innermost one. -/
def Carries (dom : Dom) (ids : List NodeId) : List (Branch NodeId) → Prop
  | [] => True
  | b :: rest =>
    dom.get? b.label =
        some ⟨b.content, rest.head?.map Branch.label, b.children.map Tree.label ++ ids⟩ ∧
      HostsAll dom (some b.label) b.children ∧ Carries dom [b.label] rest

/-- The arena hosts what has grown; the given nodes come last below the innermost open element. -/
def Stands (dom : Dom) (ids : List NodeId) (g : Growth NodeId) : Prop :=
  HostsAll dom none g.roots ∧ Carries dom ids g.openBranches

variable {dom dom' : Dom} {g : Growth NodeId} {ids : List NodeId} {id : NodeId} {content : Content}

theorem stands_iff : Stands dom [] g ↔
    HostsAll dom g.top g.last ∧ Stands dom (g.last.map Tree.label) g.frame := by
  obtain ⟨bs, roots⟩ := g
  cases bs with
  | nil => simp [Stands, Carries, Growth.last, Growth.frame, Growth.top, Growth.edit, HostsAll]
  | cons b rest =>
    simp only [Stands, Carries, Growth.last, Growth.frame, Growth.top, Growth.edit, HostsAll,
      List.head?_cons, Option.map_some, List.append_nil, List.map_nil, List.nil_append, true_and]
    constructor
    · rintro ⟨hr, hb, hc, hrest⟩
      exact ⟨hc, hr, hb, hrest⟩
    · rintro ⟨hc, hr, hb, hrest⟩
      exact ⟨hr, hb, hc, hrest⟩

theorem hostsAll_enclose {ts : List (Tree NodeId)} {bs : List (Branch NodeId)}
    (ht : HostsAll dom (bs.head?.map Branch.label) ts) (h : Carries dom (ts.map Tree.label) bs) :
    HostsAll dom none (Growth.enclose ts bs) := by
  induction bs generalizing ts with
  | nil => exact ht
  | cons b rest ih =>
    obtain ⟨hb, hc, hrest⟩ := h
    refine ih ⟨⟨?_, HostsAll.append_iff.2 ⟨hc, ht⟩⟩, trivial⟩ hrest
    rw [hb, List.map_append]

theorem Stands.hosts (h : Stands dom [] g) : HostsAll dom none g.trees :=
  HostsAll.append_iff.2 ⟨h.1, hostsAll_enclose (by exact trivial) h.2⟩

theorem Carries.congr {bs : List (Branch NodeId)} (h : Carries dom ids bs)
    (hd : ∀ id ∈ Tree.labelsOfAll (Growth.enclose [] bs), dom'.get? id = dom.get? id) :
    Carries dom' ids bs := by
  induction bs generalizing ids with
  | nil => trivial
  | cons b rest ih =>
    obtain ⟨hb, hc, hrest⟩ := h
    have hmem (id : NodeId) (hid : id ∈ b.label :: Tree.labelsOfAll b.children ++
        Tree.labelsOfAll (Growth.enclose [] rest)) : dom'.get? id = dom.get? id := by
      refine hd id ((Growth.labelsOfAll_enclose [b.tree []] rest).mem_iff.2 ?_)
      simpa [Branch.tree, Tree.labelsOfAll, Tree.labels] using hid
    refine ⟨(hmem _ (by simp)).trans hb, hc.congr fun id hid => hmem id ?_,
      ih hrest fun id hid => hmem id (List.mem_append_right _ hid)⟩
    exact List.mem_append_left _ (List.mem_cons_of_mem _ hid)

theorem Stands.congr (h : Stands dom ids g)
    (hd : ∀ id ∈ Tree.labelsOfAll g.trees, dom'.get? id = dom.get? id) : Stands dom' ids g := by
  rw [Growth.trees, Tree.labelsOfAll_append, List.forall_mem_append] at hd
  exact ⟨h.1.congr hd.1, h.2.congr hd.2⟩

/-- A node is put behind the last ones below the innermost open element. -/
theorem Stands.append {other : NodeId} (h : Stands dom ids g)
    (hn : (Tree.labelsOfAll g.trees).Nodup)
    (hd : ∀ id ∈ Tree.labelsOfAll g.trees, dom'.get? id =
      (dom.get? id).map (editChildren g.top (· ++ [other]) id)) :
    Stands dom' (ids ++ [other]) g := by
  obtain ⟨bs, roots⟩ := g
  obtain ⟨hroots, hbs⟩ := h
  cases bs with
  | nil =>
    refine ⟨hroots.congr fun id hid => ?_, trivial⟩
    rw [hd id (by simpa [Growth.trees, Growth.enclose] using hid),
      map_editChildren_of_ne (by simp [Growth.top])]
  | cons b rest =>
    obtain ⟨hb, hc, hrest⟩ := hbs
    have hperm : (Tree.labelsOfAll (Growth.trees ⟨b :: rest, roots⟩)).Perm
        (b.label :: (Tree.labelsOfAll roots ++ (Tree.labelsOfAll b.children ++
          Tree.labelsOfAll (Growth.enclose [] rest)))) := by
      rw [Growth.trees, Tree.labelsOfAll_append]
      refine ((Growth.labelsOfAll_enclose [b.tree []] rest).append_left _).trans ?_
      simp [Branch.tree, Tree.labelsOfAll, Tree.labels]
    rw [hperm.nodup_iff, List.nodup_cons] at hn
    have hkept (id : NodeId) (hid : id ∈ Tree.labelsOfAll roots ++ (Tree.labelsOfAll b.children ++
        Tree.labelsOfAll (Growth.enclose [] rest))) : dom'.get? id = dom.get? id := by
      rw [hd id (hperm.mem_iff.2 (List.mem_cons_of_mem _ hid)), map_editChildren_of_ne]
      rintro ⟨⟩
      exact hn.1 hid
    refine ⟨hroots.congr fun id hid => hkept id (List.mem_append_left _ hid), ?_,
      hc.congr fun id hid => hkept id ?_, hrest.congr fun id hid => hkept id ?_⟩
    · rw [hd b.label (hperm.mem_iff.2 List.mem_cons_self), hb, Growth.top, List.head?_cons,
        Option.map_some, Option.map_some, editChildren_self]
      simp only [List.append_assoc]
    · exact List.mem_append_right _ (List.mem_append_left _ hid)
    · exact List.mem_append_right _ (List.mem_append_right _ hid)

/-! ## The steps -/

/-- The builder's arena is the one it began with, and what has grown. -/
structure Bears (start : Dom) (b : Builder) (g : Growth NodeId) : Prop where
  openElements : b.openElements = g.openBranches.map Branch.label
  roots : b.roots = (g.trees.map Tree.label).reverse
  stands : Stands b.dom [] g
  nodup : (Tree.labelsOfAll g.trees).Nodup
  made : ∀ id ∈ Tree.labelsOfAll g.trees, start.get? id = none
  get? : ∀ id, id ∉ Tree.labelsOfAll g.trees → b.dom.get? id = start.get? id
  size : b.dom.size = start.size + (Tree.labelsOfAll g.trees).length
  sound : b.dom.Sound

variable {start : Dom} {b : Builder}

theorem Bears.plants (h : Bears start b g) : Plants start b.dom g.trees :=
  ⟨h.stands.hosts, h.nodup, h.made, h.get?, h.size, h.sound⟩

/-- What a builder makes of a new tree. -/
theorem get?_place (h : Bears start b g) {t : Tree NodeId} (ht : Grafts b.dom dom' t) :
    Hosts ({ b with dom := dom' }.place t.label).dom g.top t ∧
      (∀ id, id ∉ t.labels → ({ b with dom := dom' }.place t.label).dom.get? id =
        (b.dom.get? id).map (editChildren g.top (· ++ [t.label]) id)) ∧
      ({ b with dom := dom' }.place t.label).dom.size = b.dom.size + t.labels.length ∧
      ({ b with dom := dom' }.place t.label).dom.Sound := by
  obtain ⟨bs, roots⟩ := g
  have hopen := h.openElements
  cases bs with
  | nil =>
    simp only [Builder.place, hopen, List.map_nil]
    refine ⟨ht.hosts, fun id hid => ?_, ht.size, ht.sound⟩
    rw [ht.get? id hid, map_editChildren_of_ne (by simp [Growth.top])]
  | cons c rest =>
    have hlive : (b.dom.get? c.label).isSome := by
      rw [h.stands.2.1]
      rfl
    have hg := ht.append hlive
    have hlabels := Tree.labelsOfAll_singleton t
    simp only [Builder.place, hopen, List.map_cons]
    exact ⟨hg.hosts.1, fun id hid => hg.get? id (hlabels ▸ hid), hlabels ▸ hg.size, hg.sound⟩

theorem roots_place (h : Bears start b g) (t : Tree NodeId) :
    ({ b with dom := dom' }.place t.label).roots =
      ((g.edit (· ++ [t])).trees.map Tree.label).reverse := by
  have hroots := h.roots
  have hopen := h.openElements
  obtain ⟨bs, roots⟩ := g
  cases bs with
  | nil =>
    simp only [Builder.place, hopen, List.map_nil, hroots]
    simp [Growth.edit, Growth.trees, Growth.enclose]
  | cons c rest =>
    rw [Growth.map_label_trees_edit (.inl (List.cons_ne_nil _ _)), ← hroots]
    simp only [Builder.place, hopen, List.map_cons]

theorem Bears.place (h : Bears start b g) {t : Tree NodeId} (ht : Grafts b.dom dom' t) :
    Bears start ({ b with dom := dom' }.place t.label) (g.edit (· ++ [t])) := by
  obtain ⟨hhosts, hget, hsize, hsound⟩ := get?_place h ht
  obtain ⟨hlast, hframe⟩ := stands_iff.1 h.stands
  have hperm := Growth.labelsOfAll_edit_append g t
  have hapart : ∀ id ∈ Tree.labelsOfAll g.trees, id ∉ t.labels := fun id hid hm => by
    have hsome := h.stands.hosts.isSome_of_mem hid
    rw [ht.made id hm] at hsome
    cases hsome
  have hsplit := g.labelsOfAll_trees
  have hnodup := hsplit.nodup_iff.1 h.nodup
  have hkept (id : NodeId) (hid : id ∉ t.labels) (hp : g.top ≠ some id) :
      ({ b with dom := dom' }.place t.label).dom.get? id = b.dom.get? id := by
    rw [hget id hid, map_editChildren_of_ne hp]
  refine ⟨?_, roots_place h t, stands_iff.2 ⟨?_, ?_⟩, ?_, fun id hid => ?_, fun id hid => ?_, ?_,
    hsound⟩
  · rw [Growth.map_label_edit, ← h.openElements, Builder.place]
    split <;> rfl
  · rw [Growth.last_edit, Growth.top_edit]
    refine HostsAll.append_iff.2
      ⟨hlast.congr fun id hid => hkept id ?_ fun hp => ?_, hhosts, trivial⟩
    · exact hapart id (hsplit.mem_iff.2 (List.mem_append_left _ hid))
    · exact List.disjoint_of_nodup_append hnodup hid (Growth.mem_labelsOfAll_frame hp)
  · rw [Growth.last_edit, Growth.frame_edit, List.map_append]
    refine hframe.append hnodup.of_append_right fun id hid => ?_
    rw [Growth.frame, Growth.top_edit]
    exact hget id (hapart id (hsplit.mem_iff.2 (List.mem_append_right _ hid)))
  · rw [hperm.nodup_iff]
    exact ht.nodup.append h.nodup fun id hm hid => hapart id hid hm
  · rcases List.mem_append.1 (hperm.mem_iff.1 hid) with hm | hm
    · rw [← h.get? id fun hid => hapart id hid hm]
      exact ht.made id hm
    · exact h.made id hm
  · rw [hperm.mem_iff, List.mem_append, not_or] at hid
    rw [hkept id hid.1 fun hp => hid.2 ?_, h.get? id hid.2]
    exact hsplit.mem_iff.2 (List.mem_append_right _ (Growth.mem_labelsOfAll_frame hp))
  · rw [hsize, h.size, hperm.length_eq, List.length_append]
    omega

theorem Bears.previous?_eq (h : Bears start b g) :
    b.previous? = (g.last.map Tree.label).getLast? := by
  have hroots := h.roots
  have hstands := h.stands
  rw [Builder.previous?, h.openElements]
  obtain ⟨bs, roots⟩ := g
  cases bs with
  | nil =>
    rw [List.map_nil, hroots, List.head?_reverse]
    simp [Growth.trees, Growth.enclose, Growth.last]
  | cons c rest =>
    simp only [List.map_cons]
    rw [children, hstands.2.1, Option.map_some, Option.getD_some, List.append_nil]
    rfl

/-- Text is joined to the last text. -/
theorem Bears.joinText (h : Bears start b g) (a : NodeId) (s : String) {c : NodeId} {s' : String}
    {ts us : List (Tree NodeId)} (hg : g.last = ts ++ [.node c (.text s') us]) :
    Bears start { b with dom := b.dom.modifyText c (· ++ s) } (g.edit (Growth.joinText a s)) := by
  obtain ⟨hlast, hframe⟩ := stands_iff.1 h.stands
  have hjoin : Growth.joinText a s g.last = ts ++ [.node c (.text (s' ++ s)) us] := by
    simp [hg, Growth.joinText]
  have hlabels : Tree.labelsOfAll (Growth.joinText a s g.last) = Tree.labelsOfAll g.last := by
    rw [hjoin, hg]
    simp [Tree.labelsOfAll_append, Tree.labelsOfAll, Tree.labels]
  have hmap : (Growth.joinText a s g.last).map Tree.label = g.last.map Tree.label := by
    rw [hjoin, hg]
    simp [Tree.label]
  have hsplit := g.labelsOfAll_trees
  have hperm : (Tree.labelsOfAll (g.edit (Growth.joinText a s)).trees).Perm
      (Tree.labelsOfAll g.trees) := by
    have hsplit' := (g.edit (Growth.joinText a s)).labelsOfAll_trees
    rw [Growth.last_edit, Growth.frame_edit, hlabels] at hsplit'
    exact hsplit'.trans hsplit.symm
  have hnodup := hsplit.nodup_iff.1 h.nodup
  rw [hg, HostsAll.append_iff] at hlast
  have hnode := hlast.2.1
  have hr : Retouches b.dom (b.dom.modifyText c (· ++ s)) c (.text (s' ++ s)) :=
    (Retouches.refl hnode.1).modify fun node hn => by simp [hn]
  have hc : c ∈ Tree.labelsOfAll g.last := by
    simp [hg, Tree.labelsOfAll_append, Tree.labelsOfAll, Tree.labels]
  have hkept (id : NodeId) (hid : id ≠ c) :
      (b.dom.modifyText c (· ++ s)).get? id = b.dom.get? id := by
    rw [hr.get?, if_neg hid]
  have hown : (Tree.labelsOfAll ts ++ (Tree.node c (.text s') us).labels).Nodup := by
    have := hnodup.of_append_left
    simpa [hg, Tree.labelsOfAll_append, Tree.labelsOfAll] using this
  refine ⟨?_, ?_, stands_iff.2 ⟨?_, ?_⟩, hperm.nodup_iff.2 h.nodup, fun id hid => ?_,
    fun id hid => ?_, ?_, hr.sound h.sound⟩
  · rw [Growth.map_label_edit, h.openElements]
  · rw [h.roots, Growth.map_label_trees_edit]
    cases ho : g.openBranches with
    | nil =>
      rw [Growth.last, ho] at hmap
      exact .inr hmap
    | cons c rest => exact .inl (List.cons_ne_nil _ _)
  · rw [Growth.last_edit, Growth.top_edit, hjoin]
    refine HostsAll.append_iff.2 ⟨hlast.1.congr fun id hid => hkept id ?_,
      hr.hosts hnode hown.of_append_right, trivial⟩
    rintro rfl
    exact List.disjoint_of_nodup_append hown hid (Tree.label_mem_labels _)
  · rw [Growth.last_edit, Growth.frame_edit, hmap]
    refine hframe.congr fun id hid => hkept id ?_
    rintro rfl
    exact List.disjoint_of_nodup_append hnodup hc hid
  · exact h.made id (hperm.mem_iff.1 hid)
  · rw [hperm.mem_iff] at hid
    rw [hkept id fun e => hid (hsplit.mem_iff.2 (List.mem_append_left _ (e ▸ hc))), h.get? id hid]
  · rw [hr.size, h.size, hperm.length_eq]

theorem Stands.push {a : NodeId} (h : Stands dom [] (g.edit (· ++ [.node a content []]))) :
    Stands dom [] (g.push ⟨a, content, []⟩) := by
  obtain ⟨hlast, hframe⟩ := stands_iff.1 h
  rw [Growth.last_edit, Growth.top_edit, HostsAll.append_iff] at hlast
  rw [Growth.last_edit, Growth.frame_edit, List.map_append] at hframe
  obtain ⟨bs, roots⟩ := g
  cases bs with
  | nil => exact ⟨hlast.1, hlast.2.1.1, trivial, trivial⟩
  | cons b rest =>
    obtain ⟨hroots, hb, -, hrest⟩ := hframe
    exact ⟨hroots, hlast.2.1.1, trivial, hb, hlast.1, hrest⟩

/-- A new node is opened. -/
theorem Bears.push (a : NodeId) (h : Bears start b (g.edit (· ++ [.node a content []]))) :
    Bears start { b with openElements := a :: b.openElements } (g.push ⟨a, content, []⟩) := by
  obtain ⟨hopen, hroots, hstands, hnodup, hmade, hget, hsize, hsound⟩ := h
  rw [← Growth.trees_push] at hroots hnodup hmade hget hsize
  refine ⟨?_, hroots, hstands.push, hnodup, hmade, hget, hsize, hsound⟩
  rw [hopen, Growth.map_label_edit]
  rfl

theorem stands_edit_append {ts : List (Tree NodeId)} (hroots : HostsAll dom none g.roots)
    (ht : HostsAll dom g.top ts) (h : Carries dom (ts.map Tree.label) g.openBranches) :
    Stands dom [] (g.edit (· ++ ts)) := by
  obtain ⟨bs, roots⟩ := g
  cases bs with
  | nil => exact ⟨HostsAll.append_iff.2 ⟨hroots, ht⟩, trivial⟩
  | cons b rest =>
    obtain ⟨hb, hc, hrest⟩ := h
    refine ⟨hroots, ?_, HostsAll.append_iff.2 ⟨hc, ht⟩, hrest⟩
    rw [hb, List.map_append, List.append_nil]

theorem stands_closeThrough (tag : String) {roots ts : List (Tree NodeId)}
    {bs : List (Branch NodeId)} (hroots : HostsAll dom none roots)
    (ht : HostsAll dom (bs.head?.map Branch.label) ts) (h : Carries dom (ts.map Tree.label) bs) :
    Stands dom [] (Growth.closeThrough tag roots ts bs) := by
  induction bs generalizing ts with
  | nil => exact ⟨HostsAll.append_iff.2 ⟨hroots, ht⟩, trivial⟩
  | cons b rest ih =>
    obtain ⟨hb, hc, hrest⟩ := h
    have htree : Hosts dom (rest.head?.map Branch.label) (b.tree ts) := by
      refine ⟨?_, HostsAll.append_iff.2 ⟨hc, ht⟩⟩
      rw [hb, List.map_append]
    rw [Growth.closeThrough]
    split
    · exact stands_edit_append hroots ⟨htree, trivial⟩ hrest
    · exact ih ⟨htree, trivial⟩ hrest

theorem isElement_eq {b : Branch NodeId} {node : Node} (tag : String)
    (h : dom.get? b.label = some node) (hc : node.content = b.content) :
    Builder.isElement dom tag b.label = b.hasTag tag := by
  rw [Builder.isElement, content?, h, Option.map_some, hc, Branch.hasTag]
  cases b.content <;> rfl

theorem dropWhile_eq {bs : List (Branch NodeId)} (tag : String) (h : Carries dom ids bs) :
    (bs.map Branch.label).dropWhile (fun id => !Builder.isElement dom tag id) =
      (bs.dropWhile fun b => !b.hasTag tag).map Branch.label := by
  induction bs generalizing ids with
  | nil => rfl
  | cons b rest ih =>
    rw [List.map_cons, List.dropWhile_cons, List.dropWhile_cons, isElement_eq tag h.1 rfl, ih h.2.2]
    split <;> rfl

theorem openBranches_closeThrough (tag : String) (roots ts : List (Tree NodeId))
    {bs rest : List (Branch NodeId)} {c : Branch NodeId}
    (h : (bs.dropWhile fun b => !b.hasTag tag) = c :: rest) :
    (Growth.closeThrough tag roots ts bs).openBranches.map Branch.label =
      rest.map Branch.label := by
  induction bs generalizing ts with
  | nil => cases h
  | cons b bs ih =>
    rw [List.dropWhile_cons] at h
    rw [Growth.closeThrough]
    cases hb : b.hasTag tag with
    | true =>
      rw [hb] at h
      cases h
      exact Growth.map_label_edit _ _
    | false =>
      rw [hb] at h
      exact ih _ h

/-- An end tag closes elements, or is passed over. -/
theorem Bears.endTag (a : NodeId) (name : String) (h : Bears start b g) :
    Bears start (b.step (.endTag name)) (g.step a (.endTag name)) := by
  obtain ⟨hopen, hroots, hstands, hnodup, hmade, hget, hsize, hsound⟩ := h
  rw [Builder.step, Builder.close, hopen, dropWhile_eq name.toLower hstands.2, Growth.step]
  cases hd : g.openBranches.dropWhile fun b => !b.hasTag name.toLower with
  | nil =>
    have hany : ¬ g.openBranches.any (Branch.hasTag name.toLower) := by
      simpa using List.dropWhile_eq_nil_iff.1 hd
    rw [if_neg hany]
    exact ⟨rfl, hroots, hstands, hnodup, hmade, hget, hsize, hsound⟩
  | cons c rest =>
    have hany : g.openBranches.any (Branch.hasTag name.toLower) := by
      by_contra hn
      have : (g.openBranches.dropWhile fun b => !b.hasTag name.toLower) = [] :=
        List.dropWhile_eq_nil_iff.2 (by simpa using hn)
      rw [hd] at this
      cases this
    have htrees : (Growth.closeThrough name.toLower g.roots [] g.openBranches).trees = g.trees :=
      Growth.trees_closeThrough name.toLower g.roots [] g.openBranches
    rw [if_pos hany]
    rw [← htrees] at hroots hnodup hmade hget hsize
    exact ⟨(openBranches_closeThrough name.toLower _ _ hd).symm, hroots,
      stands_closeThrough name.toLower hstands.1 trivial hstands.2, hnodup, hmade, hget, hsize,
      hsound⟩

theorem grafts_allocate (hs : dom.Sound) (content : Content) :
    Grafts dom (dom.allocate content).1 (.node (dom.allocate content).2 content []) := by
  refine ⟨⟨?_, trivial⟩, ?_, fun id hid => ?_, fun id hid => ?_, ?_, hs.allocate content⟩
  · rw [hs.get?_allocate, if_pos rfl]
    rfl
  · simp [Tree.labels, Tree.labelsOfAll]
  · obtain rfl : id = (dom.allocate content).2 := by
      simpa [Tree.labels, Tree.labelsOfAll] using hid
    exact hs.get?_new content
  · rw [hs.get?_allocate, if_neg]
    simpa [Tree.labels, Tree.labelsOfAll] using hid
  · rw [hs.size_allocate]
    rfl

theorem Grafts.retouch {dom'' : Dom} {c : Content} {ts : List (Tree NodeId)}
    (h : Grafts dom dom' (.node id c ts)) (hr : Retouches dom' dom'' id content) :
    Grafts dom dom'' (.node id content ts) := by
  refine ⟨hr.hosts h.hosts h.nodup, h.nodup, h.made, fun x hx => ?_, hr.size.trans h.size,
    hr.sound h.sound⟩
  rw [hr.get?, if_neg, h.get? x hx]
  rintro rfl
  exact hx List.mem_cons_self

theorem retouches_foldl_setAttribute {tag : String} {m : OrderedMap String String}
    (h : Retouches dom dom' id (.element tag m)) (attributes : List (String × String)) :
    Retouches dom (attributes.foldl (fun dom (n, v) => dom.setAttribute id n v) dom') id
      (.element tag (attributes.foldl (fun m e => OrderedMap.put m e.1 e.2) m)) := by
  induction attributes generalizing dom' m with
  | nil => exact h
  | cons e rest ih => exact ih (h.setAttribute e.1 e.2)

/-- A start tag makes an element, and opens it if it has content. -/
theorem Bears.startTag (name : String) (attributes : List (String × String)) (selfClosing : Bool)
    (h : Bears start b g) :
    ∃ a, Bears start (b.step (.startTag name attributes selfClosing))
      (g.step a (.startTag name attributes selfClosing)) := by
  have hnew := grafts_allocate h.sound (.element name.toLower [])
  have hmade := hnew.retouch
    (retouches_foldl_setAttribute (Retouches.refl hnew.hosts.get?_label) attributes)
  have hplaced := h.place hmade
  refine ⟨(b.dom.createElement name).2, ?_⟩
  cases ho : Html.opensContent name.toLower selfClosing with
  | true =>
    simp only [Builder.step, Builder.addElement, Growth.step, ho, if_true]
    exact hplaced.push _
  | false =>
    simp only [Builder.step, Builder.addElement, Growth.step, ho, Bool.false_eq_true, if_false]
    exact hplaced

/-- Text is joined to text right before it, or makes a node. -/
theorem Bears.text (s : String) (h : Bears start b g) :
    ∃ a, Bears start (b.step (.text s)) (g.step a (.text s)) := by
  have hnew := h.place (grafts_allocate h.sound (.text s))
  have hlast := (stands_iff.1 h.stands).1
  have hopen : b.openElements.isEmpty = g.openBranches.isEmpty := by
    rw [h.openElements, List.isEmpty_map]
  refine ⟨(b.dom.createText s).2, ?_⟩
  rw [Builder.step, Growth.step, hopen]
  split
  · exact h
  rw [Builder.addText, h.previous?_eq]
  rcases List.eq_nil_or_concat g.last with hg | ⟨ts, ⟨c, content, us⟩, hg⟩
  · rw [Growth.edit_joinText_eq (by simp [hg, Growth.joinText]), hg]
    exact hnew
  · rw [List.concat_eq_append] at hg
    rw [hg, HostsAll.append_iff] at hlast
    have htext : b.dom.content? c = some content := by rw [content?, hlast.2.1.1]; rfl
    have hc : (g.last.map Tree.label).getLast? = some c := by simp [hg, Tree.label]
    rw [hc]
    cases content with
    | text s' =>
      have ht : b.dom.text? c = some s' := by rw [text?, htext]
      simp only [ht]
      exact h.joinText _ s hg
    | element tag attributes =>
      have ht : b.dom.text? c = none := by rw [text?, htext]
      simp only [ht]
      rw [Growth.edit_joinText_eq (by simp [hg, Growth.joinText])]
      exact hnew

theorem exists_bears_step (h : Bears start b g) (token : Html.Token) :
    ∃ a, Bears start (b.step token) (g.step a token) := by
  cases token with
  | startTag name attributes selfClosing => exact h.startTag name attributes selfClosing
  | endTag name => exact ⟨default, h.endTag default name⟩
  | text s => exact h.text s

theorem exists_bears_foldl (h : Bears start b g) (tokens : List Html.Token) :
    ∃ g' : Growth NodeId, g'.bare = tokens.foldl (Growth.step ()) g.bare ∧
      Bears start (tokens.foldl Builder.step b) g' := by
  induction tokens generalizing b g with
  | nil => exact ⟨g, rfl, h⟩
  | cons token rest ih =>
    obtain ⟨a, ha⟩ := exists_bears_step h token
    obtain ⟨g', hbare, hg'⟩ := ih ha
    exact ⟨g', by rw [hbare, Growth.bare_step, List.foldl_cons], hg'⟩

theorem Plants.tree?_eq {new : List (Tree NodeId)} {t : Tree NodeId} (h : Plants dom dom' new)
    (ht : t ∈ new) : dom'.tree? t.label = some t :=
  (hostsAll_iff.1 h.hosts t ht).tree?_eq (h.nodup.sublist (Tree.labels_sublist_of_mem ht))

/-- Building plants the trees that grow from the tokens. -/
theorem plants_build (hs : dom.Sound) (tokens : List Html.Token) :
    ∃ new, (dom.build tokens).2 = new.map Tree.label ∧
      Tree.bareAll new = (Growth.ofTokens tokens).trees ∧ Plants dom (dom.build tokens).1 new := by
  have hstart : Bears dom ⟨dom, [], []⟩ ⟨[], []⟩ :=
    ⟨rfl, rfl, ⟨trivial, trivial⟩, List.nodup_nil, List.forall_mem_nil _, fun _ _ => rfl, rfl, hs⟩
  obtain ⟨g, hbare, hg⟩ := exists_bears_foldl hstart tokens
  refine ⟨g.trees, ?_, ?_, hg.plants⟩
  · rw [build, hg.roots, List.reverse_reverse]
  · rw [← Growth.trees_bare, hbare]
    rfl

/-- Reading markup plants the trees that it is read as. -/
theorem plants_parseFragment [Html.Tokenizer] (hs : dom.Sound) (markup : List Char) :
    ∃ new, (dom.parseFragment markup).2 = new.map Tree.label ∧
      Tree.bareAll new = Html.treesOf markup ∧ Plants dom (dom.parseFragment markup).1 new :=
  plants_build hs (Html.Token.ofText markup)

end Dom

end LiveMarkup
