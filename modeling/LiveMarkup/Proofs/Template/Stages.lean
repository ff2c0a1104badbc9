import LiveMarkup.Proofs.Template.Outline

/-!
# Stages of an outline

What the passes do to a template, done to its outline. Each stage takes one kind of node away, keeps
the outline wellformed, and keeps its meaning.

* `Outline.unroll` puts a text in place of every loop.
* `Outline.select` puts the chosen branch in place of every conditional.
* `Outline.decide` puts the chosen text in place of every ternary.
-/

namespace LiveMarkup

namespace Template

variable {default : List Char} {state : Fields}

/-! ## Loops -/

mutual

/-- The outline with a text in place of every loop. -/
def Outline.unroll (text : List Char → Outline → List Char) : Outline → Outline
  | .nothing => .nothing
  | .both a b => .both (a.unroll text) (b.unroll text)
  | .run t => .run t
  | .placeholder key => .placeholder key
  | .ternary condition yes no => .ternary condition yes no
  | .loop key body => .run (text key body)
  | .conditional condition body others =>
    .conditional condition (body.unroll text) (others.unroll text)

/-- The branches with a text in place of every loop. -/
def Others.unroll (text : List Char → Outline → List Char) : Others → Others
  | .done => .done
  | .otherwise body => .otherwise (body.unroll text)
  | .elseif condition body others => .elseif condition (body.unroll text) (others.unroll text)

end

mutual

/-- Behind the pass over loops there is no loop left. -/
theorem Outline.loopKeys_unroll (text : List Char → Outline → List Char) :
    ∀ t : Outline, (t.unroll text).loopKeys = []
  | .nothing => rfl
  | .both a b => by
    simp only [Outline.unroll, Outline.loopKeys, a.loopKeys_unroll text, b.loopKeys_unroll text,
      List.append_nil]
  | .run _ => rfl
  | .placeholder _ => rfl
  | .ternary _ _ _ => rfl
  | .loop _ _ => rfl
  | .conditional _ body others => by
    simp only [Outline.unroll, Outline.loopKeys, body.loopKeys_unroll text,
      others.loopKeys_unroll text, List.append_nil]

theorem Others.loopKeys_unroll (text : List Char → Outline → List Char) :
    ∀ o : Others, (o.unroll text).loopKeys = []
  | .done => rfl
  | .otherwise body => by
    simp only [Others.unroll, Others.loopKeys, body.loopKeys_unroll text]
  | .elseif _ body others => by
    simp only [Others.unroll, Others.loopKeys, body.loopKeys_unroll text,
      others.loopKeys_unroll text, List.append_nil]

end

variable {text : List Char → Outline → List Char}

mutual

theorem Outline.WellFormed.unroll
    (hb : ∀ key (body : Outline), body.WellFormed → Braceless (text key body)) :
    ∀ {t : Outline}, t.WellFormed → (t.unroll text).WellFormed
  | .nothing, h => h
  | .both _ _, h => ⟨h.1.unroll hb, h.2.unroll hb⟩
  | .run _, h => h
  | .placeholder _, h => h
  | .ternary _ _ _, h => h
  | .loop key body, h => hb key body h.2.2
  | .conditional _ _ _, h => ⟨h.1, h.2.1.unroll hb, h.2.2.unroll hb⟩

theorem Others.WellFormed.unroll
    (hb : ∀ key (body : Outline), body.WellFormed → Braceless (text key body)) :
    ∀ {o : Others}, o.WellFormed → (o.unroll text).WellFormed
  | .done, h => h
  | .otherwise _, h => Outline.WellFormed.unroll hb h
  | .elseif _ _ _, h => ⟨h.1, h.2.1.unroll hb, h.2.2.unroll hb⟩

end

/-- Texts between which a text without events stands have none either. -/
theorem not_namesEvent_append {a b : List Char} (h : ¬ NamesEvent (a ++ b)) :
    ¬ NamesEvent a ∧ ¬ NamesEvent b := by
  refine ⟨fun ⟨before, c, rest, ha, hc⟩ => h ⟨before, c, rest ++ b, ?_, hc⟩,
    fun hb => h (hb.append_left a)⟩
  simp [ha]

/-- The texts are right for the loops whose meaning has no events. -/
def UnrollsLoops (default : List Char) (state : Fields) (text : List Char → Outline → List Char) :
    Prop :=
  ∀ key (body : Outline), body.WellFormed →
    ¬ NamesEvent ((Outline.loop key body).meaning default state) →
    text key body = (Outline.loop key body).meaning default state

mutual

/-- Only the loops in chosen branches have to be given the right texts. -/
theorem Outline.meaning_unroll (hl : UnrollsLoops default state text) :
    ∀ {t : Outline}, t.WellFormed → ¬ NamesEvent (t.meaning default state) →
      (t.unroll text).meaning default state = t.meaning default state
  | .nothing, _, _ => rfl
  | .both a b, h, he => by
    rw [Outline.meaning] at he
    obtain ⟨ha, hb⟩ := not_namesEvent_append he
    simp only [Outline.unroll, Outline.meaning, Outline.meaning_unroll hl h.1 ha,
      Outline.meaning_unroll hl h.2 hb]
  | .run _, _, _ => rfl
  | .placeholder _, _, _ => rfl
  | .ternary _ _ _, _, _ => rfl
  | .loop key body, h, he => hl key body h.2.2 he
  | .conditional condition body others, h, he => by
    rw [Outline.meaning] at he
    simp only [Outline.unroll, Outline.meaning]
    split
    · next hc =>
      rw [if_pos hc] at he
      exact Outline.meaning_unroll hl h.2.1 he
    · next hc =>
      rw [if_neg hc] at he
      exact Others.meaning_unroll hl h.2.2 he

theorem Others.meaning_unroll (hl : UnrollsLoops default state text) :
    ∀ {o : Others}, o.WellFormed → ¬ NamesEvent (o.meaning default state) →
      (o.unroll text).meaning default state = o.meaning default state
  | .done, _, _ => rfl
  | .otherwise body, h, he => by
    rw [Others.meaning] at he
    simp only [Others.unroll, Others.meaning, Outline.meaning_unroll hl h he]
  | .elseif condition body others, h, he => by
    rw [Others.meaning] at he
    simp only [Others.unroll, Others.meaning]
    split
    · next hc =>
      rw [if_pos hc] at he
      exact Outline.meaning_unroll hl h.2.1 he
    · next hc =>
      rw [if_neg hc] at he
      exact Others.meaning_unroll hl h.2.2 he

end

/-! ## Conditionals -/

mutual

/-- The outline with the chosen branch in place of every conditional. -/
def Outline.select (state : Fields) : Outline → Outline
  | .nothing => .nothing
  | .both a b => .both (a.select state) (b.select state)
  | .run t => .run t
  | .placeholder key => .placeholder key
  | .ternary condition yes no => .ternary condition yes no
  | .loop key body => .loop key body
  | .conditional condition body others =>
    if holds condition state then body.select state else others.select state

/-- The first branch whose condition holds. -/
def Others.select (state : Fields) : Others → Outline
  | .done => .nothing
  | .otherwise body => body.select state
  | .elseif condition body others =>
    if holds condition state then body.select state else others.select state

end

mutual

/-- To choose the branches first does not change what a template stands for. -/
theorem Outline.meaning_select (default : List Char) (state : Fields) :
    ∀ t : Outline, (t.select state).meaning default state = t.meaning default state
  | .nothing => rfl
  | .both a b => by
    simp only [Outline.select, Outline.meaning, a.meaning_select, b.meaning_select]
  | .run _ => rfl
  | .placeholder _ => rfl
  | .ternary _ _ _ => rfl
  | .loop _ _ => rfl
  | .conditional condition body others => by
    simp only [Outline.select, Outline.meaning]
    split
    · exact body.meaning_select default state
    · exact others.meaning_select default state

theorem Others.meaning_select (default : List Char) (state : Fields) :
    ∀ o : Others, (o.select state).meaning default state = o.meaning default state
  | .done => rfl
  | .otherwise body => body.meaning_select default state
  | .elseif condition body others => by
    simp only [Others.select, Others.meaning]
    split
    · exact body.meaning_select default state
    · exact others.meaning_select default state

end

mutual

theorem Outline.WellFormed.select (state : Fields) :
    ∀ {t : Outline}, t.WellFormed → (t.select state).WellFormed
  | .nothing, h => h
  | .both _ _, h => ⟨h.1.select state, h.2.select state⟩
  | .run _, h => h
  | .placeholder _, h => h
  | .ternary _ _ _, h => h
  | .loop _ _, h => h
  | .conditional _ _ _, h => by
    rw [Outline.select]
    split
    · exact h.2.1.select state
    · exact h.2.2.select state

theorem Others.WellFormed.select (state : Fields) :
    ∀ {o : Others}, o.WellFormed → (o.select state).WellFormed
  | .done, _ => trivial
  | .otherwise _, h => Outline.WellFormed.select state h
  | .elseif _ _ _, h => by
    rw [Others.select]
    split
    · exact h.2.1.select state
    · exact h.2.2.select state

end

/-- The outline has no blocks. -/
def Outline.IsFlat : Outline → Prop
  | .nothing => True
  | .both a b => a.IsFlat ∧ b.IsFlat
  | .run _ => True
  | .placeholder _ => True
  | .ternary _ _ _ => True
  | .loop _ _ => False
  | .conditional _ _ _ => False

mutual

theorem Outline.isFlat_select (state : Fields) :
    ∀ {t : Outline}, t.loopKeys = [] → (t.select state).IsFlat
  | .nothing, _ => trivial
  | .both _ _, h => by
    rw [Outline.loopKeys, List.append_eq_nil_iff] at h
    exact ⟨Outline.isFlat_select state h.1, Outline.isFlat_select state h.2⟩
  | .run _, _ => trivial
  | .placeholder _, _ => trivial
  | .ternary _ _ _, _ => trivial
  | .loop _ _, h => by cases h
  | .conditional _ _ _, h => by
    rw [Outline.loopKeys, List.append_eq_nil_iff] at h
    rw [Outline.select]
    split
    · exact Outline.isFlat_select state h.1
    · exact Others.isFlat_select state h.2

theorem Others.isFlat_select (state : Fields) :
    ∀ {o : Others}, o.loopKeys = [] → (o.select state).IsFlat
  | .done, _ => trivial
  | .otherwise _, h => by
    rw [Others.loopKeys] at h
    exact Outline.isFlat_select state h
  | .elseif _ _ _, h => by
    rw [Others.loopKeys, List.append_eq_nil_iff] at h
    rw [Others.select]
    split
    · exact Outline.isFlat_select state h.1
    · exact Others.isFlat_select state h.2

end

/-! ## Ternaries -/

/-- The flat outline with the chosen text in place of every ternary. -/
def Outline.decide (state : Fields) : Outline → Outline
  | .both a b => .both (a.decide state) (b.decide state)
  | .ternary condition yes no => .run (trim (if holds condition state then yes else no))
  | t => t

/-- To decide the ternaries first does not, either. -/
theorem Outline.meaning_decide (default : List Char) (state : Fields) :
    ∀ t : Outline, (t.decide state).meaning default state = t.meaning default state
  | .nothing => rfl
  | .both a b => by
    simp only [Outline.decide, Outline.meaning, a.meaning_decide, b.meaning_decide]
  | .run _ => rfl
  | .placeholder _ => rfl
  | .ternary _ _ _ => rfl
  | .loop _ _ => rfl
  | .conditional _ _ _ => rfl

theorem trim_subset (text : List Char) : trim text ⊆ text := by
  intro c hc
  rw [trim, trimEnd, List.mem_reverse] at hc
  have := List.mem_reverse.1 ((List.dropWhile_sublist _).subset hc)
  exact (List.dropWhile_sublist _).subset this

theorem Outline.WellFormed.decide (state : Fields) :
    ∀ {t : Outline}, t.WellFormed → (t.decide state).WellFormed
  | .nothing, h => h
  | .both _ _, h => ⟨h.1.decide state, h.2.decide state⟩
  | .run _, h => h
  | .placeholder _, h => h
  | .ternary condition yes no, h => by
    have hb := h.braceless
    simp only [ternaryTag, Braceless.append_iff] at hb
    refine Braceless.of_subset (t := '?' :: (yes ++ ':' :: no)) hb.2 fun c hc => ?_
    have := trim_subset _ hc
    split at this <;> simp [this]
  | .loop _ _, h => h
  | .conditional _ _ _, h => h

/-- The outline has nothing but texts and placeholders. -/
def Outline.HasOnlyPlaceholders : Outline → Prop
  | .nothing => True
  | .both a b => a.HasOnlyPlaceholders ∧ b.HasOnlyPlaceholders
  | .run _ => True
  | .placeholder _ => True
  | .ternary _ _ _ => False
  | .loop _ _ => False
  | .conditional _ _ _ => False

theorem Outline.IsFlat.hasOnlyPlaceholders_decide (state : Fields) :
    ∀ {t : Outline}, t.IsFlat → (t.decide state).HasOnlyPlaceholders
  | .nothing, _ => trivial
  | .both _ _, h =>
    ⟨h.1.hasOnlyPlaceholders_decide state, h.2.hasOnlyPlaceholders_decide state⟩
  | .run _, _ => trivial
  | .placeholder _, _ => trivial
  | .ternary _ _ _, _ => trivial

/-! ## Braces -/

theorem braceless_placeholderText {key : List Char} (hd : Braceless default)
    (hs : BracelessState state) : Braceless (placeholderText default state key) := by
  rw [placeholderText]
  split
  · next hv => exact braceless_sanitize (hs.of_find? hv)
  · exact braceless_escape hd

/-- With placeholders alone, all braces go, since neither values nor the default have any. -/
theorem Outline.HasOnlyPlaceholders.braceless_meaning (hd : Braceless default)
    (hs : BracelessState state) : ∀ {t : Outline}, t.HasOnlyPlaceholders → t.WellFormed →
    Braceless (t.meaning default state)
  | .nothing, _, _ => .nil
  | .both _ _, h, hw =>
    (h.1.braceless_meaning hd hs hw.1).append (h.2.braceless_meaning hd hs hw.2)
  | .run _, _, hw => hw
  | .placeholder _, _, _ => braceless_placeholderText hd hs

/-- Without loops, braces could come only from values and texts, and these have none. -/
theorem Outline.braceless_meaning (hd : Braceless default) (hs : BracelessState state)
    {t : Outline} (h : t.WellFormed) (hn : t.loopKeys = []) :
    Braceless (t.meaning default state) := by
  have hflat := Outline.isFlat_select state hn
  rw [← t.meaning_select, ← Outline.meaning_decide]
  exact (hflat.hasOnlyPlaceholders_decide state).braceless_meaning hd hs
    ((h.select state).decide state)

end Template

end LiveMarkup
