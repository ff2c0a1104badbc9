import LiveMarkup.Dom.Display
import LiveMarkup.Proofs.Dom.Planting
import LiveMarkup.Proofs.Dom.Reconciliation

/-!
# Showing a markup

What showing a markup does to the arena. The tree that the markup stands for is the first one that
it is read as (`Dom.firstTree?`).

* `grafts_mount`: mounting makes a tree that is alike to it.
* `grafts_refresh`: so does refreshing where nothing is shown.
* `swaps_refresh`: a tree that is shown gives way to one that is alike to it.
* `frees_mount` and `frees_refresh`: if there is no such tree, nothing happens.

In all cases the other nodes are not touched, and no further nodes are left behind. What holds of
refreshing in all of them is `redraws_refresh`.
-/

namespace LiveMarkup

namespace Dom

/-- The tree of the first root that a markup is read as. -/
def firstTree? [Html.Tokenizer] (markup : List Char) : Option (Tree NodeId) :=
  (Dom.empty.parseFragment (trim markup)).2.head?.bind
    (Dom.empty.parseFragment (trim markup)).1.tree?

variable {dom dom' : Dom} {markup : List Char} {t live : Tree NodeId}

theorem map_bare_firstTree? [Html.Tokenizer] (markup : List Char) :
    (firstTree? markup).map Tree.bare = (Html.treesOf (trim markup)).head? := by
  obtain ⟨new, hroots, hbare, hplants⟩ := plants_parseFragment sound_empty (trim markup)
  rw [firstTree?, hroots, ← hbare]
  cases new with
  | nil => rfl
  | cons t rest =>
    rw [List.map_cons, List.head?_cons, Option.bind_some, hplants.tree?_eq List.mem_cons_self]
    rfl

/-! ## Releasing -/

theorem frees_release (h : Hosts dom none t) (hn : t.labels.Nodup) :
    Frees dom (dom.release t.label) t.labels := by
  have hdrops := drops_remove h hn nofun
  refine ⟨fun id => ?_, hdrops.size, hdrops.sound⟩
  rw [release, hdrops.get?, map_editChildren_of_ne (by simp)]

theorem frees_releaseAll {ts : List (Tree NodeId)} (h : HostsAll dom none ts)
    (hn : (Tree.labelsOfAll ts).Nodup) :
    Frees dom (dom.releaseAll (ts.map Tree.label)).1 (Tree.labelsOfAll ts) := by
  induction ts generalizing dom with
  | nil => exact .nil dom
  | cons t rest ih =>
    rw [Tree.labelsOfAll] at hn
    have hfree := frees_release h.1 hn.of_append_left
    have hrest : HostsAll (dom.release t.label) none rest := h.2.congr fun id hid => by
      rw [hfree.get?, if_neg fun hm => List.disjoint_of_nodup_append hn hm hid]
    exact hfree.trans (ih hrest hn.of_append_right)

/-- A tree that is made and freed leaves no trace. -/
theorem Plants.frees {t : Tree NodeId} {rest : List (Tree NodeId)} {dom'' : Dom}
    (h : Plants dom dom' (t :: rest)) (hf : Frees dom' dom'' (Tree.labelsOfAll rest)) :
    Grafts dom dom'' t := by
  obtain ⟨hhosts, hnodup, hmade, hget, hsize, hsound⟩ := h
  rw [Tree.labelsOfAll] at hnodup hmade hget hsize
  have hd := List.disjoint_of_nodup_append hnodup
  refine ⟨hhosts.1.congr fun id hid => ?_, hnodup.of_append_left,
    fun id hid => hmade id (List.mem_append_left _ hid), fun id hid => ?_, ?_, hf.sound hsound⟩
  · rw [hf.get?, if_neg (hd hid)]
  · rw [hf.get?]
    by_cases hm : id ∈ Tree.labelsOfAll rest
    · rw [if_pos hm, hmade id (List.mem_append_right _ hm)]
    · rw [if_neg hm, hget id (by simp [hid, hm])]
  · have := hf.size
    rw [List.length_append] at hsize
    omega

/-! ## Mounting -/

variable [Html.Tokenizer]

theorem mount_eq_of_nil (h : (dom.parseFragment (trim markup)).2 = []) :
    dom.mount markup =
      ⟨(dom.parseFragment (trim markup)).1, none, some .emptyTemplate⟩ := by
  rw [mount]
  split
  · next hp => rw [hp]
  · next hp =>
    rw [hp] at h
    cases h

theorem mount_eq_of_cons {root : NodeId} {surplus : List NodeId}
    (h : (dom.parseFragment (trim markup)).2 = root :: surplus) :
    (dom.mount markup).dom = ((dom.parseFragment (trim markup)).1.releaseAll surplus).1 ∧
      (dom.mount markup).root? = some root := by
  rw [mount]
  split
  · next hp =>
    rw [hp] at h
    cases h
  · next hp =>
    rw [hp] at h ⊢
    cases h
    exact ⟨rfl, rfl⟩

theorem frees_mount (hs : dom.Sound) (h : firstTree? markup = none) :
    (dom.mount markup).root? = none ∧ Frees dom (dom.mount markup).dom [] := by
  have hhead := map_bare_firstTree? markup
  rw [h, Option.map_none] at hhead
  obtain ⟨new, hroots, hbare, hplants⟩ := plants_parseFragment hs (trim markup)
  cases new with
  | nil =>
    rw [mount_eq_of_nil hroots]
    exact ⟨rfl, fun id => by simpa [Tree.labelsOfAll] using hplants.get? id nofun,
      by simpa [Tree.labelsOfAll] using hplants.size, fun _ => hplants.sound⟩
  | cons t rest =>
    rw [← hbare] at hhead
    cases hhead

/-- Mounting makes a tree that is alike to the one that the markup stands for. -/
theorem grafts_mount (hs : dom.Sound) (h : firstTree? markup = some t) :
    ∃ new, (dom.mount markup).root? = some new.label ∧ new.Alike t ∧ new.WellFormed ∧
      Grafts dom (dom.mount markup).dom new := by
  have hhead := map_bare_firstTree? markup
  rw [h, Option.map_some] at hhead
  obtain ⟨new, hroots, hbare, hplants⟩ := plants_parseFragment hs (trim markup)
  cases new with
  | nil =>
    rw [← hbare] at hhead
    cases hhead
  | cons u rest =>
    have hu : u.bare = t.bare := by
      rw [← hbare] at hhead
      exact (Option.some.inj hhead).symm
    have hw : u.bare.WellFormed := by
      have := Html.wellFormedAll_treesOf (trim markup)
      rw [← hbare] at this
      exact this.1
    have hnodup := hplants.nodup
    rw [Tree.labelsOfAll] at hnodup
    obtain ⟨hdom, hroot⟩ := mount_eq_of_cons hroots
    refine ⟨u, hroot, Tree.alike_of_bare_eq hu, Tree.wellFormed_of_bare hw, ?_⟩
    rw [hdom]
    exact hplants.frees (frees_releaseAll hplants.hosts.2 hnodup.of_append_right)

/-! ## Refreshing -/

theorem refresh_eq_of_none (h : (dom.mount markup).root? = none) (shown : Option NodeId) :
    dom.refresh shown markup = { dom.mount markup with root? := shown } := by
  rw [refresh.eq_def]
  dsimp only
  split
  · rfl
  · next hr =>
    rw [h] at hr
    cases hr
  · next hr =>
    rw [h] at hr
    cases hr

theorem refresh_none (dom : Dom) (markup : List Char) :
    dom.refresh none markup = dom.mount markup := by
  rw [refresh.eq_def]
  dsimp only
  split
  · next hr => rw [← hr]
  · rfl
  · next he => cases he

theorem refresh_some {root : NodeId} (h : (dom.mount markup).root? = some root) (live : NodeId) :
    (dom.refresh (some live) markup).root? =
        some ((dom.mount markup).dom.reconcile live root).2 ∧
      (dom.refresh (some live) markup).dom =
        ((dom.mount markup).dom.reconcile live root).1.dom.release root := by
  rw [refresh.eq_def]
  dsimp only
  split
  · next hr =>
    rw [h] at hr
    cases hr
  · next he => cases he
  · next hr he =>
    rw [h] at hr
    cases hr
    cases he
    exact ⟨rfl, rfl⟩

theorem frees_refresh (hs : dom.Sound) (h : firstTree? markup = none) (shown : Option NodeId) :
    (dom.refresh shown markup).root? = shown ∧ Frees dom (dom.refresh shown markup).dom [] := by
  obtain ⟨hroot, hframe⟩ := frees_mount hs h
  rw [refresh_eq_of_none hroot]
  exact ⟨rfl, hframe⟩

theorem grafts_refresh (hs : dom.Sound) (h : firstTree? markup = some t) :
    ∃ new, (dom.refresh none markup).root? = some new.label ∧ new.Alike t ∧ new.WellFormed ∧
      Grafts dom (dom.refresh none markup).dom new := by
  rw [refresh_none]
  exact grafts_mount hs h

omit [Html.Tokenizer] in
/-- A made tree takes the place of another one, with a tree that is made and freed on the way. -/
theorem Swaps.of_grafts {dom₁ dom₂ : Dom} {fresh made : Tree NodeId} (hl : Hosts dom none live)
    (hg : Grafts dom dom₁ fresh) (hs : Swaps dom₁ dom₂ none live made)
    (hf : Frees dom₂ dom' fresh.labels) (hd : ∀ id ∈ made.labels, id ∉ fresh.labels) :
    Swaps dom dom' none live made := by
  refine ⟨hs.hosts.congr fun id hid => ?_, hs.nodup, fun id hid => ?_, fun id hid => ?_, ?_,
    hf.sound hs.sound⟩
  · rw [hf.get?, if_neg (hd id hid)]
  · refine (hs.made id hid).imp_right fun hm => ?_
    rwa [hg.get? id (hd id hid)] at hm
  · rw [hf.get?, hs.get? id hid]
    by_cases hm : id ∈ fresh.labels
    · have hout : id ∉ live.labels := fun ho => by
        have := hl.isSome_of_mem ho
        rw [hg.made id hm] at this
        cases this
      rw [if_pos hm, if_neg hout, hg.made id hm]
      rfl
    · rw [if_neg hm, hg.get? id hm]
  · have := hg.size
    have := hs.size
    have := hf.size
    omega

/-- A tree that is shown gives way to one that is alike to the one that the markup stands for. -/
theorem swaps_refresh (hs : dom.Sound) (hl : Hosts dom none live) (hn : live.labels.Nodup)
    (hw : live.WellFormed) (h : firstTree? markup = some t) :
    ∃ made, (dom.refresh (some live.label) markup).root? = some made.label ∧ made.Alike t ∧
      made.WellFormed ∧ Swaps dom (dom.refresh (some live.label) markup).dom none live made := by
  obtain ⟨fresh, hroot, halike, hwell, hg⟩ := grafts_mount hs h
  have hdisjoint : ∀ id ∈ live.labels, id ∉ fresh.labels := fun id hid hm => by
    have := hl.isSome_of_mem hid
    rw [hg.made id hm] at this
    cases this
  have hapart : Apart (dom.mount markup).dom none live none fresh :=
    ⟨hg.sound, hg.congr_hosts hl, hg.hosts, hn, hg.nodup, hdisjoint, hw, hwell, nofun⟩
  obtain ⟨made, edits, hresult, haligned, -, hswap⟩ := reconciled_reconcile hapart
  have hapart' : ∀ id ∈ made.labels, id ∉ fresh.labels := fun id hid hm => by
    rcases hswap.made id hid with hold | hnone
    · exact hdisjoint id hold hm
    · have := hg.hosts.isSome_of_mem hm
      rw [hnone] at this
      cases this
  have hfresh : Hosts ((dom.mount markup).dom.reconcile live.label fresh.label).1.dom none fresh :=
    hg.hosts.congr fun id hid => by
      rw [hswap.get? id fun hm => hapart' id hm hid, if_neg fun hm => hdisjoint id hm hid,
        map_editChildren_of_ne (by simp)]
  obtain ⟨hroot', hdom⟩ := refresh_some hroot live.label
  rw [hroot', hdom, hresult]
  exact ⟨made, rfl, (haligned.alike hw hwell).trans halike, haligned.wellFormed hw hwell,
    .of_grafts hl hg hswap (frees_release hfresh hg.nodup) hapart'⟩

/-- What is shown, if anything, gives way to what is shown next. No other live node is touched. -/
structure Redraws (dom dom' : Dom) (old? new? : Option (Tree NodeId)) : Prop where
  stands : ∀ t, new? = some t → Hosts dom' none t ∧ t.labels.Nodup ∧ t.WellFormed
  made : ∀ t, new? = some t → ∀ id ∈ t.labels,
    (∃ u, old? = some u ∧ id ∈ u.labels) ∨ dom.get? id = none
  get? : ∀ id, (dom.get? id).isSome → (∀ u, old? = some u → id ∉ u.labels) →
    dom'.get? id = dom.get? id
  sound : dom'.Sound

/-- Refreshing shows a tree that is alike to the one that the markup stands for. If there is none,
it shows what was shown. -/
theorem redraws_refresh (hs : dom.Sound) {old? : Option (Tree NodeId)}
    (h : ∀ t, old? = some t → Hosts dom none t ∧ t.labels.Nodup ∧ t.WellFormed)
    (markup : List Char) :
    ∃ new?, (dom.refresh (old?.map Tree.label) markup).root? = new?.map Tree.label ∧
      Redraws dom (dom.refresh (old?.map Tree.label) markup).dom old? new? ∧
      (firstTree? markup = none → new? = old?) ∧
      ∀ t, firstTree? markup = some t → ∃ made, new? = some made ∧ made.Alike t := by
  cases hf : firstTree? markup with
  | none =>
    obtain ⟨hroot, hfree⟩ := frees_refresh hs hf (old?.map Tree.label)
    have hget (id : NodeId) :
        (dom.refresh (old?.map Tree.label) markup).dom.get? id = dom.get? id := by
      rw [hfree.get?, if_neg List.not_mem_nil]
    refine ⟨old?, hroot, ⟨fun t ht => ?_, fun t ht id hid => .inl ⟨t, ht, hid⟩,
      fun id _ _ => hget id, hfree.sound hs⟩, fun _ => rfl, nofun⟩
    obtain ⟨hhosts, hrest⟩ := h t ht
    exact ⟨hhosts.congr fun id _ => hget id, hrest⟩
  | some t =>
    cases old? with
    | none =>
      obtain ⟨new, hroot, halike, hw, hg⟩ := grafts_refresh hs hf
      refine ⟨some new, hroot, ⟨?_, ?_, fun id hid _ => hg.get?_of_isSome hid, hg.sound⟩, nofun, ?_⟩
      · rintro _ ⟨⟩
        exact ⟨hg.hosts, hg.nodup, hw⟩
      · rintro _ ⟨⟩ id hid
        exact .inr (hg.made id hid)
      · rintro _ ⟨⟩
        exact ⟨new, rfl, halike⟩
    | some live =>
      obtain ⟨hl, hn, hwell⟩ := h live rfl
      obtain ⟨made, hroot, halike, hw, hswap⟩ := swaps_refresh hs hl hn hwell hf
      refine ⟨some made, hroot, ⟨?_, ?_, fun id hid hout => ?_, hswap.sound⟩, nofun, ?_⟩
      · rintro _ ⟨⟩
        exact ⟨hswap.hosts, hswap.nodup, hw⟩
      · rintro _ ⟨⟩ id hid
        exact (hswap.made id hid).imp_left fun hm => ⟨live, rfl, hm⟩
      · have hnew : id ∉ made.labels := fun hm => by
          rcases hswap.made id hm with hm | hm
          · exact hout live rfl hm
          · rw [hm] at hid
            cases hid
        rw [Option.map_some, hswap.get? id hnew, if_neg (hout live rfl),
          map_editChildren_of_ne (by simp)]
      · rintro _ ⟨⟩
        exact ⟨made, rfl, halike⟩

end Dom

end LiveMarkup
