import LiveMarkup.Proofs.Template.Blocks
import LiveMarkup.Proofs.Template.Stages
import Mathlib.Data.List.Basic

/-!
# The passes make the meaning of an outline

Every pass over a written outline makes the template of the next stage of the outline
(`Outline.turns_unroll`, `Outline.turns_select`, `Outline.turns_decide`), and the last one makes its
meaning (`Outline.turns_meaning`). Each is said of an outline with a text behind it, so that what a
pass does to the parts of an outline can be put together (`Turns.append`).

The bodies of loops are compiled on their own, for items that are nested less deep than the state.
So `compile_write` goes by induction on how deep the state is nested.
-/

namespace LiveMarkup

namespace Template

/-! ## What a pass makes of a text, whatever stands behind it -/

/-- The pass turns `p` into `q` and goes on behind it. -/
def Turns (pass : List Char → Expansion) (p q : List Char) : Prop :=
  ∀ rest, (pass (p ++ rest)).text = q ++ (pass rest).text

namespace Turns

variable {pass : List Char → Expansion} {p q p' q' : List Char}

theorem nil (pass : List Char → Expansion) : Turns pass [] [] := fun _ => rfl

/-- What a pass makes of parts, it makes of the parts one after the other. -/
theorem append (h : Turns pass p q) (h' : Turns pass p' q') : Turns pass (p ++ p') (q ++ q') :=
  fun rest => by rw [List.append_assoc, h, h', List.append_assoc]

theorem text_eq (h : Turns pass p q) (hnil : (pass []).text = []) : (pass p).text = q := by
  have := h []
  rwa [List.append_nil, hnil, List.append_nil] at this

end Turns

namespace Scans

variable {take : List Char → Option (Expansion × List Char)} {pass : List Char → Expansion}
  {word tag p : List Char}

theorem turns_run (h : Scans (openBraces ++ word) take pass) (hp : Braceless p) :
    Turns pass p p := fun rest => by
  rw [h.append_run hp.1]
  rfl

theorem turns_tag (h : Scans (openBraces ++ word) take pass) (hword : '\x7d' ∉ word)
    (ht : Braceless tag) (hw : ¬ word <+: tag) : Turns pass (inBraces tag) (inBraces tag) :=
  fun rest => by
    rw [h.append_tag hword ht.1 hw]
    rfl

end Scans

variable {state : Fields} {key condition yes no : List Char}

theorem braceless_elseifTag (hc : Braceless condition) : Braceless (elseifTag condition) :=
  .append (by decide) (.append (s := [' ']) (by decide) hc)

/-! ## Loops -/

section

variable (state) (each : List Char → Inner state → Expansion)

/-- The text of a loop, with its body expanded for every item. -/
def loopText (key : List Char) (body : Outline) : List Char :=
  (repeatBody state each key body.write).text

/-- A loop ends at its own end mark, since none of its key is inside. -/
theorem turns_loop {body : Outline} (hk : IsLoopKey key) (hn : key ∉ body.loopKeys)
    (hb : body.WellFormed) :
    Turns (unrollLoops state each) (Outline.loop key body).write (loopText state each key body) :=
  fun rest => by
    have htake : takeLoop state each
        (key ++ (closeBraces ++ (body.write ++ (inBraces ('/' :: key) ++ rest)))) =
        some (repeatBody state each key body.write, rest) := by
      rw [takeLoop, readLoop?_write hk hn hb]
      rfl
    have htaken := (scans_unrollLoops state each).taken htake
    rw [Outline.write, List.append_assoc, List.append_assoc, inBraces_append]
    exact congrArg Expansion.text htaken

theorem turns_ifTag (hc : Braceless condition) :
    Turns (unrollLoops state each) (inBraces (ifTag condition)) (inBraces (ifTag condition)) :=
  fun rest => by
    have hnone : takeLoop state each ("if".toList ++ ' ' :: (condition ++ (closeBraces ++ rest))) =
        none := rfl
    have hrun : '\x7b' ∉ "if".toList ++ ' ' :: (condition ++ closeBraces) := by
      simp [hc.1, closeBraces]
    have hleft := (scans_unrollLoops state each).left hnone
    have hrest := (scans_unrollLoops state each).append_run hrun rest
    rw [List.append_assoc, List.cons_append, List.append_assoc] at hrest
    rw [hrest] at hleft
    simpa [inBraces, ifTag, blockStart] using congrArg Expansion.text hleft

mutual

/-- The pass over loops goes part by part, and each loop is unrolled where it stands. -/
theorem Outline.turns_unroll : ∀ {t : Outline}, t.WellFormed →
    Turns (unrollLoops state each) t.write (t.unroll (loopText state each)).write
  | .nothing, _ => .nil _
  | .both _ _, h => (Outline.turns_unroll h.1).append (Outline.turns_unroll h.2)
  | .run _, h => (scans_unrollLoops state each).turns_run h
  | .placeholder _, h => (scans_unrollLoops state each).turns_tag (by decide) (IsKey.braceless h)
      (IsKey.not_prefix h (by decide) [])
  | .ternary _ _ _, h => (scans_unrollLoops state each).turns_tag (by decide)
      (IsTernary.braceless h) (IsTernary.not_hash_prefix h [])
  | .loop _ _, h => turns_loop state each h.1 h.2.1 h.2.2
  | .conditional _ _ _, h =>
    (turns_ifTag state each h.1).append ((Outline.turns_unroll h.2.1).append
      ((Others.turns_unroll h.2.2).append
        ((scans_unrollLoops state each).turns_tag (by decide) (by decide) (by decide))))

theorem Others.turns_unroll : ∀ {o : Others}, o.WellFormed →
    Turns (unrollLoops state each) o.write (o.unroll (loopText state each)).write
  | .done, _ => .nil _
  | .otherwise _, h =>
    ((scans_unrollLoops state each).turns_tag (by decide) (by decide) (by decide)).append
      (Outline.turns_unroll h)
  | .elseif _ _ _, h =>
    ((scans_unrollLoops state each).turns_tag (by decide) (braceless_elseifTag h.1)
      (by simp [elseifTag])).append
      ((Outline.turns_unroll h.2.1).append (Others.turns_unroll h.2.2))

end

end

/-! ## Conditionals -/

theorem text_chosenBody_cons_some (condition body : List Char) (branches : List Branch) :
    (chosenBody state (⟨some condition, body⟩ :: branches)).text =
      if holds condition state then (selectBranches state body).text
      else (chosenBody state branches).text := by
  cases h : holds condition state with
  | true =>
    have : (decideCondition condition state).1 = true := h
    simp only [chosenBody, chooseBranch, this]
    rfl
  | false =>
    have : (decideCondition condition state).1 = false := h
    simp only [chosenBody, chooseBranch, this]
    rfl

mutual

/-- The pass over conditionals goes part by part, once there are no loops. -/
theorem Outline.turns_select : ∀ {t : Outline}, t.WellFormed → t.loopKeys = [] →
    Turns (selectBranches state) t.write (t.select state).write
  | .nothing, _, _ => .nil _
  | .both _ _, h, hn => by
    rw [Outline.loopKeys, List.append_eq_nil_iff] at hn
    exact (Outline.turns_select h.1 hn.1).append (Outline.turns_select h.2 hn.2)
  | .run _, h, _ => (scans_selectBranches state).turns_run h
  | .placeholder _, h, _ => (scans_selectBranches state).turns_tag (by decide) (IsKey.braceless h)
      (IsKey.not_prefix h (by decide) _)
  | .ternary _ _ _, h, _ => (scans_selectBranches state).turns_tag (by decide)
      (IsTernary.braceless h) (IsTernary.not_hash_prefix h _)
  | .loop _ _, _, hn => by cases hn
  | .conditional condition body others, h, hn => fun rest => by
    rw [Outline.loopKeys, List.append_eq_nil_iff] at hn
    have htake : takeConditional state (' ' :: (condition ++ (closeBraces ++
        (body.write ++ (others.write ++ (inBraces "/if".toList ++ rest)))))) =
        some (chosenBody state (⟨some condition, body.write⟩ :: others.branches), rest) := by
      rw [takeConditional, readConditional?_write h.1 h.2.1 hn.1 h.2.2 hn.2]
      rfl
    have htaken := (scans_selectBranches state).taken htake
    have hbody := (Outline.turns_select h.2.1 hn.1).text_eq
      (by rw [(scans_selectBranches state).nil]; rfl)
    have hchosen : (chosenBody state (⟨some condition, body.write⟩ :: others.branches)).text =
        ((Outline.conditional condition body others).select state).write := by
      rw [text_chosenBody_cons_some, hbody, Others.text_chosenBody h.2.2 hn.2, Outline.select]
      split
      · rfl
      · rfl
    rw [← hchosen, ← Expansion.text_append, ← htaken, Outline.write, ifTag]
    simp only [inBraces_append, List.append_assoc, List.cons_append, conditionalStart]

theorem Others.text_chosenBody : ∀ {o : Others}, o.WellFormed → o.loopKeys = [] →
    (chosenBody state o.branches).text = (o.select state).write
  | .done, _, _ => rfl
  | .otherwise body, h, hn =>
    (Outline.turns_select h hn).text_eq (by rw [(scans_selectBranches state).nil]; rfl)
  | .elseif condition body others, h, hn => by
    rw [Others.loopKeys, List.append_eq_nil_iff] at hn
    have hbody := (Outline.turns_select h.2.1 hn.1).text_eq
      (by rw [(scans_selectBranches state).nil]; rfl)
    rw [Others.branches, text_chosenBody_cons_some, hbody, Others.text_chosenBody h.2.2 hn.2,
      holds_cons_of_isBlank (by decide), Others.select]
    split
    · rfl
    · rfl

end

/-! ## Ternaries -/

theorem turns_tag_of_substitute {f : List Char → Substitution} {tag q : List Char}
    (hc : '\x7d' ∉ tag) (hn : '\n' ∉ tag) (hf : ((Segment.tag tag).substitute f).text = q) :
    Turns (substituteTags f) (inBraces tag) q := fun rest => by
  rw [substituteTags_tag f hc hn, Expansion.text_append, hf]

theorem trimStart_ternaryTag (condition yes no : List Char) :
    trimStart (ternaryTag condition yes no) = ternaryTag (trimStart condition) yes no := by
  induction condition with
  | nil => rfl
  | cons c condition ih =>
    by_cases hc : isBlank c = true
    · rw [trimStart, trimStart, ternaryTag, List.cons_append, List.dropWhile_cons_of_pos hc,
        List.dropWhile_cons_of_pos hc]
      exact ih
    · rw [trimStart, trimStart, ternaryTag, List.cons_append, List.dropWhile_cons_of_neg hc,
        List.dropWhile_cons_of_neg hc]
      rfl

theorem isBlockTag_ternaryTag (hhash : ¬ ['#'] <+: condition) (hslash : ¬ ['/'] <+: condition)
    (helse : ¬ "else".toList <+: condition) : isBlockTag (ternaryTag condition yes no) = false := by
  have hword (word : List Char) (hw : '?' ∉ word) (hp : word <+: ternaryTag condition yes no) :
      word <+: condition := prefix_of_prefix_append hw hp
  have hkeyword : afterKeyword? "elseif".toList (ternaryTag condition yes no) = none := by
    rw [afterKeyword?, stripStart?_eq_none_iff.2]
    exact fun hp => helse (hword _ (by decide)
      ((List.prefix_append "else".toList "if".toList).trans hp))
  have hne : (ternaryTag condition yes no == "else".toList) = false := by
    refine beq_eq_false_iff_ne.2 fun he => ?_
    have : '?' ∈ "else".toList := he ▸ by simp [ternaryTag]
    exact absurd this (by decide)
  rw [isBlockTag.eq_def]
  split
  · next rest ht => exact absurd (hword ['#'] (by decide) ⟨rest, ht.symm⟩) hhash
  · next rest ht => exact absurd (hword ['/'] (by decide) ⟨rest, ht.symm⟩) hslash
  · rw [hne, hkeyword]
    rfl

theorem substituteTernary_ternaryTag (h : IsTernary condition yes no) :
    (substituteTernary state (ternaryTag condition yes no)).replacement? =
      some (trim (if holds condition state then yes else no)) := by
  have hblock : isBlockTag (ternaryTag (trimStart condition) yes no) = false :=
    isBlockTag_ternaryTag h.not_hash h.not_slash h.not_else
  have hcondition : splitOnce? ['?'] (ternaryTag condition yes no) =
      some (condition, yes ++ ':' :: no) := splitOnce?_append_mark h.notMem_condition
  have hyes : splitOnce? [':'] (yes ++ ':' :: no) = some (yes, no) :=
    splitOnce?_append_mark h.notMem_yes
  rw [substituteTernary, trimStart_ternaryTag, hblock, splitTernary?, hcondition]
  simp only [hyes]
  rfl

theorem Outline.turns_decide : ∀ {t : Outline}, t.WellFormed → t.IsFlat →
    Turns (selectTernaries state) t.write (t.decide state).write
  | .nothing, _, _ => .nil _
  | .both _ _, h, hf => (Outline.turns_decide h.1 hf.1).append (Outline.turns_decide h.2 hf.2)
  | .run _, h, _ => (scans_tags _).turns_run h
  | .placeholder _, h, _ => turns_tag_of_substitute (IsKey.braceless h).2
      (IsKey.notMem h (by decide)) (by rw [Segment.substitute, IsKey.substituteTernary_eq h]; rfl)
  | .ternary _ _ _, h, _ => turns_tag_of_substitute (IsTernary.braceless h).2
      (IsTernary.oneLine h) (by rw [Segment.substitute, substituteTernary_ternaryTag h]; rfl)

/-! ## Placeholders -/

variable {default : List Char}

theorem text_substitutePlaceholder (h : IsKey key) :
    (substitutePlaceholder default state key).replacement? =
      some (placeholderText default state key) := by
  rw [h.substitutePlaceholder_eq, placeholderText]
  cases state.find? (String.ofList key) with
  | some value => rfl
  | none => rfl

/-- The pass over placeholders goes part by part, once there is nothing else. -/
theorem Outline.turns_meaning : ∀ {t : Outline}, t.WellFormed → t.HasOnlyPlaceholders →
    Turns (fillPlaceholders default state) t.write (t.meaning default state)
  | .nothing, _, _ => .nil _
  | .both _ _, h, hf => (Outline.turns_meaning h.1 hf.1).append (Outline.turns_meaning h.2 hf.2)
  | .run _, h, _ => (scans_tags _).turns_run h
  | .placeholder _, h, _ => turns_tag_of_substitute (IsKey.braceless h).2
      (IsKey.notMem h (by decide)) (by rw [Segment.substitute, text_substitutePlaceholder h]; rfl)

/-! ## All passes -/

/-- What the passes before the events make of a wellformed outline, when the loops in it are
expanded to texts without braces. -/
theorem text_passes_write {t : Outline} (h : t.WellFormed)
    {each : List Char → Inner state → Expansion}
    (hloops : ∀ key (body : Outline), body.WellFormed → Braceless (loopText state each key body)) :
    ((((unrollLoops state each t.write).andThen (selectBranches state)).andThen
        (selectTernaries state)).andThen (fillPlaceholders default state)).text =
      (t.unroll (loopText state each)).meaning default state := by
  have hunrolled := h.unroll hloops
  have hflat := Outline.isFlat_select state (Outline.loopKeys_unroll (loopText state each) t)
  have hselected := hunrolled.select state
  have hdecided := hselected.decide state
  have hbranches : Turns (selectBranches state) _ _ :=
    Outline.turns_select hunrolled (Outline.loopKeys_unroll (loopText state each) t)
  rw [Expansion.text_andThen, Expansion.text_andThen, Expansion.text_andThen,
    (Outline.turns_unroll state each h).text_eq (by rw [(scans_unrollLoops state each).nil]; rfl),
    hbranches.text_eq (by rw [(scans_selectBranches state).nil]; rfl),
    (Outline.turns_decide hselected hflat).text_eq
      (by rw [selectTernaries, (scans_tags _).nil]; rfl),
    (Outline.turns_meaning hdecided (hflat.hasOnlyPlaceholders_decide state)).text_eq
      (by rw [fillPlaceholders, (scans_tags _).nil]; rfl),
    Outline.meaning_decide, Outline.meaning_select]

variable {settings : Settings}

theorem braceless_bindEvents {text : List Char} (h : Braceless text) :
    Braceless (bindEvents text) :=
  ⟨notMem_bindEvents (by decide +kernel) h.1, notMem_bindEvents (by decide +kernel) h.2⟩

theorem text_concat (l : List Expansion) :
    (Expansion.concat l).text = l.flatMap Expansion.text := by
  induction l with
  | nil => rfl
  | cons a l ih => rw [Expansion.concat, Expansion.text_append, ih, List.flatMap_cons]

theorem itemsUnder?_eq_none {key : String} (h : ∀ items, state.find? key ≠ some (.array items)) :
    itemsUnder? state key = none := by
  rw [itemsUnder?]
  split
  · next items hfind => exact absurd hfind (h items)
  · rfl

theorem loopText_eq_flatMap (each : List Char → Fields → Expansion) (key : List Char)
    (body : Outline) :
    loopText state (fun content item => each content (itemScope item.1)) key body =
      (loopItems state key).flatMap fun item => (each body.write (itemScope item)).text := by
  rw [loopText, repeatBody, loopItems]
  split
  · next inner hinner =>
    split
    · next items hfind =>
      have hitems := map_itemsUnder? hfind
      rw [hinner, Option.map_some, Option.some_inj] at hitems
      rw [text_concat, List.flatMap_map, ← hitems, List.flatMap_map]
    · next hfind => rw [itemsUnder?_eq_none hfind] at hinner; cases hinner
  · next hinner =>
    split
    · next items hfind =>
      have hitems := map_itemsUnder? hfind
      rw [hinner] at hitems
      cases hitems
    · rfl

/-- The scope of an item is less deep than the state, on which the recursion into loops rests. -/
theorem depth_lt_of_mem_loopItems {item : Value} (h : item ∈ loopItems state key) :
    Value.fieldsDepth (itemScope item) < Value.fieldsDepth state := by
  rw [loopItems] at h
  split at h
  · next hfind =>
    exact Nat.lt_of_le_of_lt (fieldsDepth_itemScope_le item) (depth_lt_of_item hfind h)
  · cases h

theorem bracelessState_itemScope {item : Value} (hs : BracelessState state)
    (h : item ∈ loopItems state key) : BracelessState (itemScope item) := by
  rw [loopItems] at h
  split at h
  · next hfind =>
    have hitem : BracelessValue item := Value.AllStringsOfItems.of_mem (hs.of_find? hfind) h
    cases item with
    | object fields => exact hitem
    | _ => exact ⟨hitem, trivial⟩
  · cases h

theorem not_namesEvent_of_mem_flatMap {α : Type} {l : List α} {f : α → List Char} {a : α}
    (h : ¬ NamesEvent (l.flatMap f)) (ha : a ∈ l) : ¬ NamesEvent (f a) := by
  obtain ⟨s, t, rfl⟩ := List.append_of_mem ha
  rw [List.flatMap_append, List.flatMap_cons] at h
  exact (not_namesEvent_append (not_namesEvent_append h).2).1

/-- A written outline compiles to its meaning. -/
theorem compile_write (hd : settings.directives = []) (hdefault : Braceless settings.defaultValue)
    (state : Fields) {t : Outline} (h : t.WellFormed) (hs : BracelessState state) :
    Braceless (compile settings t.write state).text ∧
      (¬ NamesEvent (t.meaning settings.defaultValue state) →
        (compile settings t.write state).text = t.meaning settings.defaultValue state) := by
  -- The bodies of loops are compiled in scopes that are nested less deep.
  have inner {key : List Char} {body : Outline} (hb : body.WellFormed) {item : Value}
      (hi : item ∈ loopItems state key) :=
    have := depth_lt_of_mem_loopItems hi
    compile_write hd hdefault (itemScope item) hb (bracelessState_itemScope hs hi)
  have hloops (key : List Char) (body : Outline) (hb : body.WellFormed) :
      Braceless (loopText state (fun content item => compile settings content (itemScope item.1))
        key body) := by
    rw [loopText_eq_flatMap]
    exact .flatMap fun item hi => (inner hb hi).1
  have hright : UnrollsLoops settings.defaultValue state
      (loopText state fun content item => compile settings content (itemScope item.1)) := by
    intro key body hb he
    rw [Outline.meaning] at he
    rw [loopText_eq_flatMap, Outline.meaning]
    refine List.flatMap_congr fun item hi => (inner hb hi).2 ?_
    exact not_namesEvent_of_mem_flatMap
      (f := fun item => body.meaning settings.defaultValue (itemScope item)) he hi
  have hmade : (compile settings t.write state).text = bindEvents ((t.unroll (loopText state
      fun content item => compile settings content (itemScope item.1))).meaning
      settings.defaultValue state) := by
    rw [compile_eq hd, ← text_passes_write h hloops]
  rw [hmade]
  refine ⟨braceless_bindEvents (Outline.braceless_meaning hdefault hs (h.unroll hloops)
    (Outline.loopKeys_unroll _ t)), fun he => ?_⟩
  have hmeaning := Outline.meaning_unroll hright h he
  rw [hmeaning, bindEvents_eq_self he]
termination_by Value.fieldsDepth state

variable {t : Outline}

/-- The six passes over a written outline make the meaning of the outline, if it holds no mark of an
event. -/
theorem compile_write_eq_meaning (hd : settings.directives = [])
    (hdefault : Braceless settings.defaultValue) (h : t.WellFormed) (hs : BracelessState state)
    (he : ¬ eventMark <:+: t.meaning settings.defaultValue state) :
    (compile settings t.write state).text = t.meaning settings.defaultValue state :=
  (compile_write hd hdefault state h hs).2 (not_namesEvent_of_absent he)

/-- A conditional with a ternary in a loop, over two items of which one has no name. -/
theorem compile_write_eq_meaning_of_nested :
    let item := Outline.conditional "done".toList (.placeholder "name".toList)
      (.elseif "!name".toList (.ternary "level > 1 ".toList " high ".toList "low".toList)
        (.otherwise (.run "open".toList)))
    let t := Outline.loop "items".toList (.both (.run "<li>".toList) item)
    let state : Fields := [("items", .array [
      .object [("name", .string "a<b"), ("done", .bool true)],
      .object [("level", .number (.int 2))]])]
    t.WellFormed ∧ BracelessState state ∧ ¬ eventMark <:+: t.meaning [] state ∧
      (compile ⟨[], []⟩ t.write state).text = "<li>a&lt;b<li>open".toList := by
  intro item t state
  have hkey : IsKey "name".toList := ⟨by decide, List.all_eq_true.mp (by decide), by decide⟩
  have hloop : IsLoopKey "items".toList := ⟨by decide, List.all_eq_true.mp (by decide), by decide⟩
  have hternary : IsTernary "level > 1 ".toList " high ".toList "low".toList :=
    ⟨by decide, by decide, by decide, by decide, by decide, by decide, by decide⟩
  have hw : t.WellFormed :=
    ⟨hloop, by decide, (by decide : Braceless "<li>".toList), by decide, hkey, by decide, hternary,
      (by decide : Braceless "open".toList)⟩
  have hs : BracelessState state :=
    ⟨⟨⟨(by decide : Braceless "a<b".toList), trivial, trivial⟩, ⟨trivial, trivial⟩, trivial⟩,
      trivial⟩
  have hm : t.meaning [] state = "<li>a&lt;b<li>open".toList := by decide +kernel
  have he : ¬ eventMark <:+: t.meaning [] state := by
    rw [hm]
    decide +kernel
  exact ⟨hw, hs, he, (compile_write_eq_meaning rfl .nil hw hs he).trans hm⟩

end Template

end LiveMarkup
