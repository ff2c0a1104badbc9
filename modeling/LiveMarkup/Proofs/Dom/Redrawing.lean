import LiveMarkup.Proofs.Dom.Forest
import LiveMarkup.Proofs.Dom.Showing

/-!
# Showing a markup in a forest

Refreshing a root of a forest changes nothing but its tree, and nothing is left behind of the nodes
that are made on the way (`Dom.RedrawsOnly`, `Dom.IsForest.redrawsOnly_refresh`). Markup that is
read as no root at all leaves the very same arena (`Dom.build_eq_of_nil`).
-/

namespace LiveMarkup

namespace Dom

/-- How many nodes stand at and below a root, if there is one. -/
def extent (dom : Dom) (root? : Option NodeId) : ℕ :=
  ((root?.bind dom.tree?).map fun t => t.labels.length).getD 0

/-- What is shown gives way to what is shown next, given the roots that the markup is read as. -/
structure RedrawsOnly (dom dom' : Dom) (shown shown' : Option NodeId) (roots : List NodeId) :
    Prop where
  /-- Outside of the tree that was shown, every handle still names the same node. -/
  outside : ∀ id, dom.contains id = true → (∀ root, shown = some root → ¬ dom.Below id root) →
    dom'.get? id = dom.get? id
  /-- What is shown next is a tree of its own. -/
  stands : ∀ root, shown' = some root → (dom'.tree? root).isSome = true ∧ dom'.parent? root = none
  size : roots ≠ [] → dom'.size + dom.extent shown = dom.size + dom'.extent shown'
  unchanged : roots = [] → dom' = dom ∧ shown' = shown

variable {dom dom' : Dom} {markup : List Char} {shown : Option NodeId} {root : NodeId}
  {t : Tree NodeId} {roots : List NodeId}

/-! ## Markup without roots -/

/-- As long as nothing has become a root, nothing is open and nothing was made. -/
def Builder.Untouched (dom : Dom) (b : Builder) : Prop :=
  b.roots = [] → b.openElements = [] ∧ b.dom = dom

namespace Builder

variable {b : Builder}

theorem roots_place_ne_nil (h : b.Untouched dom) (dom' : Dom) (id : NodeId) :
    ({ b with dom := dom' }.place id).roots ≠ [] := by
  rw [place]
  split
  · next parent rest ho =>
    intro hr
    have hnone : b.openElements = [] := (h hr).1
    rw [show b.openElements = parent :: rest from ho] at hnone
    cases hnone
  · exact List.cons_ne_nil _ _

theorem Untouched.step (h : b.Untouched dom) (token : Html.Token) :
    (b.step token).Untouched dom := by
  cases token with
  | startTag name attributes selfClosing =>
    intro hr
    rw [Builder.step, addElement] at hr
    dsimp only at hr
    split at hr
    · exact absurd hr (roots_place_ne_nil h _ _)
    · exact absurd hr (roots_place_ne_nil h _ _)
  | endTag name =>
    intro hr
    obtain ⟨ho, hd⟩ := h hr
    rw [Builder.step, ho]
    exact ⟨rfl, hd⟩
  | text s =>
    rw [Builder.step]
    split
    · exact h
    · intro hr
      rw [addText] at hr
      dsimp only at hr
      split at hr
      · exact absurd hr (roots_place_ne_nil h _ _)
      · next last hl =>
        -- Text is only joined to text that is there.
        have hlast : b.previous? ≠ none := by rw [hl]; exact Option.some_ne_none _
        split at hr
        · obtain ⟨ho, -⟩ := h hr
          exact absurd (by rw [previous?, ho, show b.roots = [] from hr]; rfl) hlast
        · exact absurd hr (roots_place_ne_nil h _ _)

theorem Untouched.foldl_step (h : b.Untouched dom) (tokens : List Html.Token) :
    (tokens.foldl Builder.step b).Untouched dom := by
  induction tokens generalizing b with
  | nil => exact h
  | cons token rest ih => exact ih (h.step token)

end Builder

/-- Tokens that make no root make nothing at all. -/
theorem build_eq_of_nil {tokens : List Html.Token} (h : (dom.build tokens).2 = []) :
    (dom.build tokens).1 = dom := by
  have hstart : Builder.Untouched dom ⟨dom, [], []⟩ := fun _ => ⟨rfl, rfl⟩
  exact (hstart.foldl_step tokens (List.reverse_eq_nil_iff.1 h)).2

/-! ## Refreshing -/

theorem Hosts.extent_eq (h : Hosts dom none t) (hn : t.labels.Nodup) :
    dom.extent (some t.label) = t.labels.length := by
  rw [extent, Option.bind_some, h.tree?_eq hn]
  rfl

theorem Hosts.stands (h : Hosts dom none t) (hn : t.labels.Nodup) :
    (dom.tree? t.label).isSome = true ∧ dom.parent? t.label = none := by
  rw [h.tree?_eq hn, parent?_eq h.get?_label]
  exact ⟨rfl, rfl⟩

theorem IsForest.exists_hosts (h : dom.IsForest) (hc : dom.contains root = true)
    (hp : dom.parent? root = none) :
    ∃ t, t.label = root ∧ Hosts dom none t ∧ t.labels.Nodup ∧ t.WellFormed ∧
      ∀ id, id ∈ t.labels ↔ dom.Below id root := by
  obtain ⟨t, ht⟩ := h.exists_isTreeOf hc
  exact ⟨t, ht.label, hp ▸ ht.hosts, ht.nodup, ht.wellFormed, ht.mem_iff⟩

theorem exists_firstTree?_of_ne_nil [Html.Tokenizer] (hs : dom.Sound)
    (h : (dom.parseFragment (trim markup)).2 ≠ []) : ∃ t, firstTree? markup = some t := by
  obtain ⟨new, hroots, hbare, -⟩ := plants_parseFragment hs (trim markup)
  have hhead := map_bare_firstTree? markup
  cases new with
  | nil => exact absurd hroots h
  | cons t rest =>
    rw [← hbare] at hhead
    obtain ⟨u, hu, -⟩ := Option.map_eq_some_iff.1 hhead
    exact ⟨u, hu⟩

/-- Where nothing changes, what is shown stays. -/
theorem IsForest.redrawsOnly_self (h : dom.IsForest) (hshown : ∀ root, shown = some root →
      dom.contains root = true ∧ dom.parent? root = none) (roots : List NodeId) :
    RedrawsOnly dom dom shown shown roots := by
  refine ⟨fun _ _ _ => rfl, fun root hr => ?_, fun _ => rfl, fun _ => ⟨rfl, rfl⟩⟩
  obtain ⟨hc, hp⟩ := hshown root hr
  obtain ⟨t, rfl, hhosts, hn, -⟩ := h.exists_hosts hc hp
  exact hhosts.stands hn

/-- Refreshing a root of a forest, or nothing, touches no node outside of the tree that is shown.
The number of nodes changes by what is shown, and without a root in the markup nothing changes. -/
theorem IsForest.redrawsOnly_refresh [Html.Tokenizer] (h : dom.IsForest)
    (hshown : ∀ root, shown = some root →
      dom.contains root = true ∧ dom.parent? root = none) (markup : List Char) :
    RedrawsOnly dom (dom.refresh shown markup).dom shown (dom.refresh shown markup).root?
      (dom.parseFragment (trim markup)).2 := by
  by_cases hroots : (dom.parseFragment (trim markup)).2 = []
  · have hmount := mount_eq_of_nil hroots
    rw [show (dom.parseFragment (trim markup)).1 = dom from build_eq_of_nil hroots] at hmount
    rw [refresh_eq_of_none (by rw [hmount]), hmount]
    exact h.redrawsOnly_self hshown _
  obtain ⟨wanted, hwanted⟩ := exists_firstTree?_of_ne_nil h.sound hroots
  cases shown with
  | none =>
    obtain ⟨new, hroot, -, -, hg⟩ := grafts_refresh h.sound hwanted
    rw [hroot]
    refine ⟨fun id hid _ => hg.get?_of_isSome hid, ?_, fun _ => ?_, fun hnil => absurd hnil hroots⟩
    · rintro _ ⟨⟩
      exact hg.hosts.stands hg.nodup
    · rw [hg.hosts.extent_eq hg.nodup, hg.size]
      rfl
  | some live =>
    obtain ⟨hc, hp⟩ := hshown live rfl
    obtain ⟨old, rfl, hhosts, hn, hw, hmem⟩ := h.exists_hosts hc hp
    obtain ⟨made, hroot, -, -, hswap⟩ := swaps_refresh h.sound hhosts hn hw hwanted
    rw [hroot]
    refine ⟨fun id hid hout => ?_, ?_, fun _ => ?_, fun hnil => absurd hnil hroots⟩
    · have hold : id ∉ old.labels := fun hm => hout _ rfl ((hmem id).1 hm)
      have hnew : id ∉ made.labels := fun hm => by
        rcases hswap.made id hm with hm | hm
        · exact hold hm
        · rw [contains, hm] at hid
          cases hid
      rw [hswap.get? id hnew, if_neg hold, map_editChildren_of_ne (by simp)]
    · rintro _ ⟨⟩
      exact hswap.hosts.stands hswap.nodup
    · rw [hhosts.extent_eq hn, hswap.hosts.extent_eq hswap.nodup]
      exact hswap.size

end Dom

end LiveMarkup
