import LiveMarkup.Proofs.Text.Occurrence
import LiveMarkup.Template.Compiler
import Mathlib.Data.List.TakeWhile
import Mathlib.Logic.Function.Iterate

/-!
# Texts that the event pass keeps

`bindEvents` writes a mark with a name as an attribute, which makes the text longer. So it keeps
exactly the texts in which no mark is followed by a name (`bindEvents_eq_self_iff`). What it makes
of a text is such a text (`not_namesEvent_bindEvents`), and so it keeps that
(`bindEvents_idempotent`).
-/

namespace LiveMarkup

namespace Template

/-- A mark of an event with a name behind it. -/
def NamesEvent (text : List Char) : Prop :=
  ∃ before c rest, text = before ++ eventMark ++ c :: rest ∧ isWordChar c = true

theorem namesEvent_iff {text : List Char} :
    NamesEvent text ↔ ∃ c, isWordChar c = true ∧ eventMark ++ [c] <:+: text := by
  constructor
  · rintro ⟨before, c, rest, rfl, hc⟩
    exact ⟨c, hc, before, rest, by simp⟩
  · rintro ⟨c, hc, before, rest, rfl⟩
    exact ⟨before, c, rest, by simp, hc⟩

theorem NamesEvent.append_left {text : List Char} (h : NamesEvent text) (p : List Char) :
    NamesEvent (p ++ text) := by
  obtain ⟨before, c, rest, rfl, hc⟩ := h
  exact ⟨p ++ before, c, rest, by simp, hc⟩

theorem not_namesEvent_of_absent {text : List Char} (h : ¬ eventMark <:+: text) :
    ¬ NamesEvent text := by
  rintro ⟨before, c, rest, rfl, -⟩
  exact h ⟨before, c :: rest, rfl⟩

theorem bindEvents_of_splitOnce? {text before behind : List Char}
    (h : splitOnce? eventMark text = some (before, behind)) :
    bindEvents text =
      before ++ (if (behind.takeWhile isWordChar).isEmpty then eventMark
        else eventAttribute (behind.takeWhile isWordChar)) ++
        bindEvents (behind.dropWhile isWordChar) := by
  rw [bindEvents]
  split
  · next hs =>
    rw [hs] at h
    cases h
  · next hs =>
    rw [hs] at h
    cases h
    rfl

theorem eventMark_eq : eventMark = ['e', 'v', 'e', 'n', 't', ':'] := rfl

theorem length_eventMark : eventMark.length = 6 := rfl

/-- Two marks do not overlap: the first one is followed by all of the second. -/
theorem eq_append_of_mark_append {p behind rest : List Char} (hp : p ≠ [])
    (h : p ++ (eventMark ++ rest) = eventMark ++ behind) :
    ∃ q, p = eventMark ++ q ∧ behind = q ++ (eventMark ++ rest) := by
  rw [eventMark_eq] at h ⊢
  rcases p with _ | ⟨a, _ | ⟨b, _ | ⟨c, _ | ⟨d, _ | ⟨e, _ | ⟨f, q⟩⟩⟩⟩⟩⟩
  · exact absurd rfl hp
  all_goals simp at h
  obtain ⟨rfl, rfl, rfl, rfl, rfl, rfl, rfl⟩ := h
  exact ⟨q, rfl, rfl⟩

/-- Behind a first mark without a name, the events are those of the rest. -/
theorem namesEvent_of_splitOnce? {text before behind : List Char}
    (hs : splitOnce? eventMark text = some (before, behind))
    (hn : behind.takeWhile isWordChar = []) (h : NamesEvent text) : NamesEvent behind := by
  obtain ⟨b, c, rest, rfl, hc⟩ := h
  have ht := eq_append_of_splitOnce? hs
  have hfirst := not_infix_of_splitOnce? hs (by decide)
  rw [List.append_assoc, List.append_assoc] at ht
  rcases List.append_eq_append_iff.1 ht with ⟨p, hbefore, hrest⟩ | ⟨p, hb, hrest⟩
  · -- The first mark would come later than the given one.
    cases p with
    | nil =>
      obtain ⟨rfl⟩ := List.append_cancel_left hrest
      simp [hc] at hn
    | cons d p =>
      obtain ⟨q, hq, -⟩ := eq_append_of_mark_append (by simp) hrest.symm
      exact absurd ⟨b, q, by rw [hbefore, hq, List.append_assoc]⟩ hfirst
  · cases p with
    | nil =>
      obtain ⟨rfl⟩ := List.append_cancel_left hrest
      simp [hc] at hn
    | cons d p =>
      obtain ⟨q, -, hbehind⟩ := eq_append_of_mark_append (by simp) hrest.symm
      exact ⟨q, c, rest, by rw [hbehind, List.append_assoc], hc⟩

theorem dropWhile_eq_self_of_takeWhile {text : List Char} (h : text.takeWhile isWordChar = []) :
    text.dropWhile isWordChar = text :=
  List.dropWhile_eq_self_iff.2 (List.takeWhile_eq_nil_iff.1 h)

theorem length_eventAttribute (name : List Char) :
    (eventAttribute name).length = name.length + 13 := by
  have hstart : "data-event=\"".toList.length = 12 := rfl
  unfold eventAttribute
  rw [List.length_append, List.length_append, hstart, List.length_singleton]
  omega

theorem length_le_length_bindEvents (text : List Char) :
    text.length ≤ (bindEvents text).length := by
  fun_induction bindEvents text with
  | case1 text h => exact Nat.le_refl _
  | case2 text before behind hs name ih =>
    have hsplit := length_of_splitOnce? hs
    have hname : name.length + (behind.dropWhile isWordChar).length = behind.length := by
      rw [← List.length_append, List.takeWhile_append_dropWhile]
    by_cases he : name = []
    · rw [he, List.length_nil] at hname
      rw [if_pos (by simpa using he), List.length_append, List.length_append]
      omega
    · rw [if_neg (by simpa using he), List.length_append, List.length_append,
        length_eventAttribute]
      rw [length_eventMark] at hsplit
      omega

theorem length_lt_length_bindEvents {text : List Char} (h : NamesEvent text) :
    text.length < (bindEvents text).length := by
  fun_induction bindEvents text with
  | case1 text hs =>
    exact absurd h (not_namesEvent_of_absent (splitOnce?_eq_none_iff.1 hs))
  | case2 text before behind hs name ih =>
    have hsplit := length_of_splitOnce? hs
    have hrun := List.takeWhile_append_dropWhile (p := isWordChar) (l := behind)
    by_cases he : name = []
    · have hkept := dropWhile_eq_self_of_takeWhile he
      have := ih (hkept.symm ▸ namesEvent_of_splitOnce? hs he h)
      rw [if_pos (by simpa using he), List.length_append, List.length_append]
      rw [hkept] at this ⊢
      omega
    · have hrest := length_le_length_bindEvents (behind.dropWhile isWordChar)
      have hname : name.length + (behind.dropWhile isWordChar).length = behind.length := by
        rw [← List.length_append, hrun]
      rw [if_neg (by simpa using he), List.length_append, List.length_append,
        length_eventAttribute]
      rw [length_eventMark] at hsplit
      omega

theorem bindEvents_eq_self {text : List Char} (h : ¬ NamesEvent text) :
    bindEvents text = text := by
  fun_induction bindEvents text with
  | case1 text hs => rfl
  | case2 text before behind hs name ih =>
    have ht := eq_append_of_splitOnce? hs
    have hrun := List.takeWhile_append_dropWhile (p := isWordChar) (l := behind)
    have hname : name = [] := by
      rcases hn : name with _ | ⟨c, rest⟩
      · rfl
      · refine absurd ⟨before, c, rest ++ behind.dropWhile isWordChar, ?_, ?_⟩ h
        · rw [ht, ← List.cons_append, ← hn, hrun]
        · exact List.mem_takeWhile_imp (hn ▸ List.mem_cons_self : c ∈ name)
    have hbehind : ¬ NamesEvent behind := fun hb => h (by
      rw [ht, List.append_assoc]
      exact (hb.append_left _).append_left _)
    rw [dropWhile_eq_self_of_takeWhile hname] at ih ⊢
    rw [ih hbehind, if_pos (by simpa using hname)]
    exact ht.symm

/-- The event pass keeps a text exactly if no mark in it has a name. -/
theorem bindEvents_eq_self_iff {text : List Char} : bindEvents text = text ↔ ¬ NamesEvent text := by
  constructor
  · intro h hn
    have := length_lt_length_bindEvents hn
    rw [h] at this
    omega
  · exact bindEvents_eq_self

theorem mem_eventAttribute {name : List Char} {c : Char} :
    c ∈ eventAttribute name ↔ c ∈ eventAttribute [] ∨ c ∈ name := by
  unfold eventAttribute
  simp only [List.mem_append, List.not_mem_nil, or_false]
  constructor
  · rintro ((h | h) | h)
    · exact .inl (.inl h)
    · exact .inr h
    · exact .inl (.inr h)
  · rintro ((h | h) | h)
    · exact .inl (.inl h)
    · exact .inr h
    · exact .inl (.inr h)

/-- The event pass writes no character besides those of the text and of the attribute. -/
theorem notMem_bindEvents {text : List Char} {c : Char} (hc : c ∉ eventAttribute [])
    (h : c ∉ text) : c ∉ bindEvents text := by
  fun_induction bindEvents text with
  | case1 text hs => exact h
  | case2 text before behind hs name ih =>
    rw [eq_append_of_splitOnce? hs, List.mem_append, List.mem_append, not_or, not_or] at h
    obtain ⟨⟨hbefore, hmark⟩, hbehind⟩ := h
    have hname : c ∉ name := fun hn => hbehind (List.takeWhile_subset _ hn)
    have hrest : c ∉ behind.dropWhile isWordChar :=
      fun hr => hbehind ((List.dropWhile_sublist _).subset hr)
    rw [List.mem_append, List.mem_append, not_or, not_or]
    refine ⟨⟨hbefore, ?_⟩, ih hrest⟩
    by_cases he : name = []
    · rwa [if_pos (by simpa using he)]
    · rw [if_neg (by simpa using he), mem_eventAttribute, not_or]
      exact ⟨hc, hname⟩

/-! ## Writing events again -/

theorem splitOnce?_eventMark {before : List Char} (hb : ¬ eventMark <:+: before)
    (rest : List Char) :
    splitOnce? eventMark (before ++ (eventMark ++ rest)) = some (before, rest) := by
  rw [splitOnce?_append before fun a p hp hne hpre => ?_, splitOnce?_self_append, Option.map_some]
  · simp
  · obtain ⟨behind, hbehind⟩ := hpre
    obtain ⟨q, rfl, -⟩ := eq_append_of_mark_append hne hbehind.symm
    exact hb ⟨a, q, by rw [hp, List.append_assoc]⟩

theorem exists_eventAttribute_eq (name : List Char) : ∃ start, ¬ eventMark <:+: start ∧
    eventAttribute name = 'd' :: start ++ '"' :: (name ++ ['"']) :=
  ⟨"ata-event=".toList, by decide +kernel, rfl⟩

/-- No mark begins in an attribute or in the text before it, if there is none in that text. -/
theorem namesEvent_of_eventAttribute {before name rest : List Char}
    (hb : ¬ eventMark <:+: before) (hn : ∀ c ∈ name, isWordChar c = true)
    (h : NamesEvent (before ++ eventAttribute name ++ rest)) : NamesEvent rest := by
  obtain ⟨c, hc, hi⟩ := namesEvent_iff.1 h
  obtain ⟨start, hstart, hattribute⟩ := exists_eventAttribute_eq name
  have hparts : before ++ eventAttribute name ++ rest =
      (before ++ 'd' :: start) ++ '"' :: (name ++ '"' :: rest) := by
    rw [hattribute]
    simp
  have hquote : '"' ∉ eventMark ++ [c] := by
    intro hq
    rcases List.mem_append.1 hq with hq | hq
    · exact absurd hq (by decide)
    · rw [← List.mem_singleton.1 hq] at hc
      exact absurd hc (by decide)
  -- The quotes part what is written into pieces; a mark with a name lies in one of them.
  rw [hparts] at hi
  rcases infix_of_infix_append_cons hquote hi with hi | hi
  · have hmark := (List.prefix_append eventMark [c]).isInfix.trans hi
    rcases infix_of_infix_append_cons (by decide) hmark with hi | hi
    · exact absurd hi hb
    · exact absurd hi hstart
  rcases infix_of_infix_append_cons hquote hi with hi | hi
  · have hcolon : ':' ∈ name := hi.subset (List.mem_append_left _ (by decide))
    exact absurd (hn _ hcolon) (by decide)
  · exact namesEvent_iff.2 ⟨c, hc, hi⟩

/-- Where a text does not begin with a name, neither does what the event pass makes of it. -/
theorem takeWhile_bindEvents {text : List Char} (h : text.takeWhile isWordChar = []) :
    (bindEvents text).takeWhile isWordChar = [] := by
  cases hs : splitOnce? eventMark text with
  | none => rw [bindEvents_eq_self (not_namesEvent_of_absent (splitOnce?_eq_none_iff.1 hs)), h]
  | some found =>
    obtain ⟨before, behind⟩ := found
    rw [bindEvents_of_splitOnce? hs]
    rw [eq_append_of_splitOnce? hs] at h
    cases before with
    | nil => cases h
    | cons c before =>
      simp only [List.cons_append] at h ⊢
      rw [List.takeWhile_cons] at h ⊢
      split at h
      · cases h
      · next hc => rw [if_neg hc]

/-- The event pass leaves no mark with a name. -/
theorem not_namesEvent_bindEvents (text : List Char) : ¬ NamesEvent (bindEvents text) := by
  fun_induction bindEvents text with
  | case1 text hs => exact not_namesEvent_of_absent (splitOnce?_eq_none_iff.1 hs)
  | case2 text before behind hs name ih =>
    have hfirst := not_infix_of_splitOnce? hs (by decide)
    intro h
    by_cases he : name = []
    · have hkept := dropWhile_eq_self_of_takeWhile he
      have hnoname : (bindEvents (behind.dropWhile isWordChar)).takeWhile isWordChar = [] :=
        takeWhile_bindEvents (hkept.symm ▸ he : (behind.dropWhile isWordChar).takeWhile _ = [])
      rw [if_pos (by simpa using he), List.append_assoc] at h
      exact ih (namesEvent_of_splitOnce? (splitOnce?_eventMark hfirst _) hnoname h)
    · rw [if_neg (by simpa using he)] at h
      exact ih (namesEvent_of_eventAttribute hfirst (fun _ => List.mem_takeWhile_imp) h)

/-- The event pass changes nothing more in what it has made. So what a loop makes of its body,
which goes through the pass once for each loop around it, stays as it was. -/
theorem bindEvents_idempotent :
    (∀ text, bindEvents (bindEvents text) = bindEvents text) ∧
      ∀ (settings : Settings) (body : List Char) (scope : Fields) (levels : Nat),
        bindEvents^[levels] (compile settings body scope).text =
          (compile settings body scope).text := by
  have htwice (text : List Char) : bindEvents (bindEvents text) = bindEvents text :=
    bindEvents_eq_self (not_namesEvent_bindEvents text)
  refine ⟨htwice, fun settings body scope levels => ?_⟩
  refine Function.iterate_fixed ?_ levels
  rw [compile]
  exact htwice _

end Template

end LiveMarkup
