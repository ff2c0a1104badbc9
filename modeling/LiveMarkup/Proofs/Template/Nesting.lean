import LiveMarkup.Proofs.Template.Scan
import LiveMarkup.Template.Compiler
import Mathlib.Data.List.Forall2

/-!
# Compiling ends

A pass walks over a text from one mark to the next (`Walks`). What it puts in place of a block may
take further walks, and for a loop further calls of the compiler, one for each item
(`CompilesWithin`). Neither relation says that a walk or a call comes to an end: each derivation is
a walk, or a call, that did.

Every call does, and the calls in it are nested no deeper than the arrays and objects in the state,
whatever the directives answer (`compilesWithin_iff`): the text of a loop may grow without bound,
but its item is nested less deep than the state.
-/

namespace LiveMarkup

namespace Template

variable {α : Type} {mark text : List Char} {read : List Char → Option (α × List Char)}
  {expands expands' : α → Expansion → Prop} {made made' : Expansion} {state : Fields}

/-! ## Walks -/

/-- A pass walks over a text to its end. It looks for the next mark and reads the block behind it.
In place of the block it puts one of its expansions, and goes on behind it. If there is no block, it
goes on behind the mark. -/
inductive Walks (mark : List Char) (read : List Char → Option (α × List Char))
    (expands : α → Expansion → Prop) : List Char → Expansion → Prop
  | finish {text : List Char} (hs : splitOnce? mark text = none) :
      Walks mark read expands text (.literal text)
  | skip {text before behind : List Char} {made : Expansion}
      (hs : splitOnce? mark text = some (before, behind)) (hr : read behind = none)
      (h : Walks mark read expands behind made) :
      Walks mark read expands text (.literal (before ++ mark) ++ made)
  | expand {text before behind rest : List Char} {block : α} {inner made : Expansion}
      (hs : splitOnce? mark text = some (before, behind)) (hr : read behind = some (block, rest))
      (hb : expands block inner) (h : Walks mark read expands rest made) :
      Walks mark read expands text (.literal before ++ inner ++ made)

/-- A walk has one result if each block has one expansion. -/
theorem Walks.unique (h : Walks mark read expands text made)
    (h' : Walks mark read expands' text made')
    (hunique : ∀ block a b, expands block a → expands' block b → a = b) : made = made' := by
  induction h generalizing made' with
  | finish hs =>
    cases h' with
    | finish _ => rfl
    | skip hs' _ _ => cases hs.symm.trans hs'
    | expand hs' _ _ _ => cases hs.symm.trans hs'
  | skip hs hr _ ih =>
    cases h' with
    | finish hs' => cases hs.symm.trans hs'
    | skip hs' _ hrest =>
      cases hs.symm.trans hs'
      rw [ih hrest]
    | expand hs' hr' _ _ =>
      cases hs.symm.trans hs'
      cases hr.symm.trans hr'
  | expand hs hr hb _ ih =>
    cases h' with
    | finish hs' => cases hs.symm.trans hs'
    | skip hs' hr' _ =>
      cases hs.symm.trans hs'
      cases hr.symm.trans hr'
    | expand hs' hr' hb' hrest =>
      cases hs.symm.trans hs'
      cases hr.symm.trans hr'
      rw [hunique _ _ _ hb hb', ih hrest]

/-- A pass that scans for the mark walks over every text, if each block that is read can be expanded
and leaves less of the text. -/
theorem Walks.of_scans {take : List Char → Option (Expansion × List Char)}
    {pass : List Char → Expansion} (h : Scans mark take pass) (hmark : 0 < mark.length)
    (hnone : ∀ behind, read behind = none → take behind = none)
    (hsome : ∀ behind block rest, read behind = some (block, rest) →
      rest.length ≤ behind.length ∧
        ∃ inner, take behind = some (inner, rest) ∧ expands block inner)
    (text : List Char) : Walks mark read expands text (pass text) := by
  induction hn : text.length using Nat.strongRecOn generalizing text with
  | ind n ih =>
    rw [h text]
    cases hs : splitOnce? mark text with
    | none => exact .finish hs
    | some found =>
      obtain ⟨before, behind⟩ := found
      have hlength := length_of_splitOnce? hs
      cases hr : read behind with
      | none =>
        simp only [hnone behind hr]
        exact .skip hs hr (ih behind.length (by omega) behind rfl)
      | some found =>
        obtain ⟨block, rest⟩ := found
        obtain ⟨hle, inner, htake, hinner⟩ := hsome behind block rest hr
        simp only [htake]
        exact .expand hs hr hinner (ih rest.length (by omega) rest rfl)

/-! ## The passes as walks -/

/-- Walks over the blocks of one directive. -/
def WalksDirective (d : Directive) (state : Fields) : List Char → Expansion → Prop :=
  Walks (directiveStart d.name.toList)
    (fun behind => (readDirective? d.name.toList behind).map fun (arguments, content, rest) =>
      ((arguments, content), rest))
    fun block made =>
      made = ⟨d.expand block.1 block.2 state, [.expanded d.name block.1 block.2 state]⟩

/-- Walks over the blocks of every directive in turn. -/
def WalksDirectives (state : Fields) : List Directive → Expansion → Expansion → Prop
  | [], before, made => made = before
  | d :: ds, before, made =>
    ∃ next, WalksDirective d state before.text next ∧
      WalksDirectives state ds ⟨next.text, before.events ++ next.events⟩ made

/-- Walks over the loops of a text, given what `each` body expands to for an item. -/
def WalksLoops (each : List Char → Value → Expansion → Prop) (state : Fields) :
    List Char → Expansion → Prop :=
  Walks blockStart
    (fun behind => (readLoop? behind).map fun (key, content, rest) => ((key, content), rest))
    fun block made =>
      match state.find? (String.ofList block.1) with
      | some (.array items) =>
        ∃ parts, List.Forall₂ (each block.2) items parts ∧ made = .concat parts
      | _ => made = ⟨[], [.reported (.loopTargetNotSequence (String.ofList block.1))]⟩

/-- Walks over the conditionals of a text, and over those of each branch that is chosen. -/
inductive WalksConditionals (state : Fields) : List Char → Expansion → Prop
  | finish {text : List Char} (hs : splitOnce? conditionalStart text = none) :
      WalksConditionals state text (.literal text)
  | skip {text before behind : List Char} {made : Expansion}
      (hs : splitOnce? conditionalStart text = some (before, behind))
      (hc : readConditional? behind = none) (h : WalksConditionals state behind made) :
      WalksConditionals state text (.literal (before ++ conditionalStart) ++ made)
  | none {text before behind : List Char} {c : Conditional} {made : Expansion}
      (hs : splitOnce? conditionalStart text = some (before, behind))
      (hc : readConditional? behind = some c) (hb : (chooseBranch state c.branches).1 = none)
      (h : WalksConditionals state c.rest made) :
      WalksConditionals state text
        (.literal before ++ ⟨[], (chooseBranch state c.branches).2.map .reported⟩ ++ made)
  | some {text before behind : List Char} {c : Conditional} {b : Branch} {body made : Expansion}
      (hs : splitOnce? conditionalStart text = some (before, behind))
      (hc : readConditional? behind = some c) (hb : (chooseBranch state c.branches).1 = some b)
      (hbody : WalksConditionals state b.body body) (h : WalksConditionals state c.rest made) :
      WalksConditionals state text (.literal before ++
        ⟨body.text, (chooseBranch state c.branches).2.map .reported ++ body.events⟩ ++ made)

/-- Walks over the tags of a text. -/
def WalksTags (f : List Char → Substitution) : List Char → Expansion → Prop :=
  Walks openBraces splitTag? fun tag made => made = (Segment.tag tag).substitute f

/-- Walks over the events of a text. -/
def WalksEvents : List Char → Expansion → Prop :=
  Walks eventMark
    (fun behind => some (behind.takeWhile isWordChar, behind.dropWhile isWordChar))
    fun name made => made = .literal (if name.isEmpty then eventMark else eventAttribute name)

/-- The compiler is called for a template in a state and ends with an expansion, the calls in it
being nested to less than a depth, this one among them. -/
def CompilesWithin (settings : Settings) : Nat → List Char → Fields → Expansion → Prop
  | 0, _, _, _ => False
  | depth + 1, template, state, made =>
    ∃ directives loops conditionals ternaries placeholders events,
      WalksDirectives state settings.directives (.literal template) directives ∧
      WalksLoops (fun body item => CompilesWithin settings depth body (itemScope item)) state
        directives.text loops ∧
      WalksConditionals state loops.text conditionals ∧
      WalksTags (substituteTernary state) conditionals.text ternaries ∧
      WalksTags (substitutePlaceholder settings.defaultValue state) ternaries.text placeholders ∧
      WalksEvents placeholders.text events ∧
      made = ⟨events.text, directives.events ++ loops.events ++ conditionals.events ++
        ternaries.events ++ placeholders.events⟩

/-! ## Every pass ends -/

theorem walksDirective_iff {d : Directive} :
    WalksDirective d state text made ↔ made = applyDirective d state text := by
  have hends : WalksDirective d state text (applyDirective d state text) := by
    refine .of_scans (scans_applyDirective d state) (Nat.succ_pos _) (fun behind hr => ?_)
      (fun behind block rest hr => ?_) text
    · rw [Option.map_eq_none_iff] at hr
      rw [takeDirective, hr]
      rfl
    · obtain ⟨⟨arguments, content, _⟩, hd, he⟩ := Option.map_eq_some_iff.1 hr
      cases he
      refine ⟨Nat.le_of_lt (length_of_readDirective? hd), _, ?_, rfl⟩
      rw [takeDirective, hd]
      rfl
  refine ⟨fun h => h.unique hends ?_, fun h => h ▸ hends⟩
  rintro block a b rfl rfl
  rfl

theorem walksDirectives_iff {ds : List Directive} {before : Expansion} :
    WalksDirectives state ds before made ↔
      made = ds.foldl (fun acc d => acc.andThen (applyDirective d state)) before := by
  induction ds generalizing before with
  | nil => rfl
  | cons d ds ih =>
    rw [List.foldl_cons, WalksDirectives]
    simp only [walksDirective_iff, ih, exists_eq_left]
    rfl

/-- The pass over loops ends if every body does for every item of an array in the state. -/
theorem walksLoops_unrollLoops {each : List Char → Value → Expansion → Prop}
    {f : List Char → Inner state → Expansion} (heach : ∀ body item, each body item.1 (f body item))
    (text : List Char) : WalksLoops each state text (unrollLoops state f text) := by
  refine .of_scans (scans_unrollLoops state f) (Nat.succ_pos _) (fun behind hr => ?_)
    (fun behind block rest hr => ?_) text
  · rw [Option.map_eq_none_iff] at hr
    rw [takeLoop, hr]
    rfl
  · obtain ⟨⟨key, content, _⟩, hl, he⟩ := Option.map_eq_some_iff.1 hr
    cases he
    refine ⟨Nat.le_of_lt (length_of_readLoop? hl), repeatBody state f key content, ?_, ?_⟩
    · rw [takeLoop, hl]
      rfl
    split
    · next items hfind =>
      obtain ⟨inner, hinner, rfl⟩ := Option.map_eq_some_iff.1 (map_itemsUnder? hfind)
      refine ⟨inner.map (f content), ?_, by rw [repeatBody, hinner]⟩
      rw [List.forall₂_map_left_iff, List.forall₂_map_right_iff, List.forall₂_same]
      exact fun item _ => heach content item
    · next hno =>
      have hnone : itemsUnder? state (String.ofList key) = none := by
        rw [itemsUnder?]
        split
        · next items hfind => exact absurd hfind (hno items)
        · rfl
      rw [repeatBody, hnone]

theorem WalksLoops.eq_unrollLoops {each : List Char → Value → Expansion → Prop}
    {f : List Char → Value → Expansion} (h : WalksLoops each state text made)
    (heach : ∀ body item a, each body item a → a = f body item) :
    made = unrollLoops state (fun body item => f body item.1) text := by
  have hends : WalksLoops (fun body item a => a = f body item) state text
      (unrollLoops state (fun body item => f body item.1) text) :=
    walksLoops_unrollLoops (fun _ _ => rfl) text
  refine Walks.unique h hends fun block a b ha hb => ?_
  split at ha
  · next items hfind =>
    rw [hfind] at hb
    obtain ⟨as, has, rfl⟩ := ha
    obtain ⟨bs, hbs, rfl⟩ := hb
    have has' := has.imp (heach block.2)
    rw [List.right_unique_forall₂' (fun _ _ _ ha hb => ha.trans hb.symm) has' hbs]
  · next hno =>
    split at hb
    · next items hfind => exact absurd hfind (hno items)
    · rw [ha, hb]

theorem WalksConditionals.eq_selectBranches (h : WalksConditionals state text made) :
    made = selectBranches state text := by
  induction h with
  | @finish text hs => rw [scans_selectBranches state text, hs]
  | @skip text before behind made hs hc _ ih =>
    rw [scans_selectBranches state text, hs]
    simp only [takeConditional, hc, Option.map_none, ih]
  | @none text before behind c made hs hc hb _ ih =>
    rw [scans_selectBranches state text, hs]
    simp only [takeConditional, hc, Option.map_some, chosenBody, hb, ih, Expansion.text_literal,
      Expansion.events_literal, List.append_nil]
  | @some text before behind c b body made hs hc hb _ _ ihbody ih =>
    rw [scans_selectBranches state text, hs]
    simp only [takeConditional, hc, Option.map_some, chosenBody, hb, ihbody, ih]

/-- The pass over conditionals ends, since a branch is shorter than its conditional. -/
theorem walksConditionals_selectBranches (text : List Char) :
    WalksConditionals state text (selectBranches state text) := by
  induction hn : text.length using Nat.strongRecOn generalizing text with
  | ind n ih =>
    rw [scans_selectBranches state text]
    cases hs : splitOnce? conditionalStart text with
    | none => exact .finish hs
    | some found =>
      obtain ⟨before, behind⟩ := found
      have hlength := length_of_splitOnce? hs
      have hstart : 0 < conditionalStart.length := Nat.succ_pos _
      cases hc : readConditional? behind with
      | none =>
        simp only [takeConditional, hc, Option.map_none]
        exact .skip hs hc (ih behind.length (by omega) behind rfl)
      | some c =>
        obtain ⟨hrest, hbodies⟩ := within_of_readConditional? hc
        have hwalk := ih c.rest.length (by omega) c.rest rfl
        simp only [takeConditional, hc, Option.map_some, chosenBody]
        cases hb : (chooseBranch state c.branches).1 with
        | none =>
          simp only [Expansion.text_literal, Expansion.events_literal, List.append_nil]
          exact .none hs hc hb hwalk
        | some b =>
          have hshort := hbodies b (mem_of_chooseBranch hb)
          exact .some hs hc hb (ih b.body.length (by omega) b.body rfl) hwalk

theorem walksConditionals_iff :
    WalksConditionals state text made ↔ made = selectBranches state text :=
  ⟨fun h => h.eq_selectBranches, fun h => h ▸ walksConditionals_selectBranches text⟩

theorem walksTags_iff {f : List Char → Substitution} :
    WalksTags f text made ↔ made = substituteTags f text := by
  have hends : WalksTags f text (substituteTags f text) := by
    refine .of_scans (scans_substituteTags f) (by decide) (fun behind hr => ?_)
      (fun behind tag rest hr => ?_) text
    · rw [takeTag, hr]
      rfl
    · refine ⟨?_, _, by rw [takeTag, hr]; rfl, rfl⟩
      rw [eq_append_of_splitTag? hr, List.length_append]
      exact Nat.le_add_left _ _
  refine ⟨fun h => h.unique hends ?_, fun h => h ▸ hends⟩
  rintro tag a b rfl rfl
  rfl

theorem walksEvents_iff : WalksEvents text made ↔ made = .literal (bindEvents text) := by
  have hends : WalksEvents text (.literal (bindEvents text)) := by
    fun_induction bindEvents text with
    | case1 text hs => exact .finish hs
    | case2 text before behind hs name ih =>
      change WalksEvents text (.literal before ++
        .literal (if name.isEmpty then eventMark else eventAttribute name) ++
        .literal (bindEvents (behind.dropWhile isWordChar)))
      exact Walks.expand hs rfl rfl ih
  refine ⟨fun h => h.unique hends ?_, fun h => h ▸ hends⟩
  rintro tag a b rfl rfl
  rfl

/-! ## Every call ends -/

/-- Given the loops, the other passes of a call are what they are. -/
theorem compilesWithin_succ_iff {settings : Settings} {depth : Nat} {template : List Char} :
    CompilesWithin settings (depth + 1) template state made ↔
      ∃ loops,
        WalksLoops (fun body item => CompilesWithin settings depth body (itemScope item)) state
          (applyDirectives settings.directives state template).text loops ∧
        let marked := (((Expansion.mk loops.text
          ((applyDirectives settings.directives state template).events ++ loops.events)).andThen
            (selectBranches state)).andThen (selectTernaries state)).andThen
              (fillPlaceholders settings.defaultValue state)
        made = ⟨bindEvents marked.text, marked.events⟩ := by
  rw [CompilesWithin]
  simp only [walksDirectives_iff, walksConditionals_iff, walksTags_iff, walksEvents_iff,
    exists_and_left, exists_eq_left]
  rfl

/-- Whatever a call ends with is the markup of the template. -/
theorem CompilesWithin.eq_compile {settings : Settings} {depth : Nat} {template : List Char}
    (h : CompilesWithin settings depth template state made) :
    made = compile settings template state := by
  induction depth generalizing template state made with
  | zero => exact h.elim
  | succ depth ih =>
    obtain ⟨loops, hloops, rfl⟩ := compilesWithin_succ_iff.1 h
    have hunroll := hloops.eq_unrollLoops fun body item a ha => ih ha
    rw [hunroll, compile]
    rfl

/-- A call ends if calls may be nested one deeper than the arrays and objects in the state. -/
theorem compilesWithin_compile (settings : Settings) {depth : Nat} (template : List Char)
    (h : Value.fieldsDepth state ≤ depth) :
    CompilesWithin settings (depth + 1) template state (compile settings template state) := by
  induction depth generalizing template state with
  | zero =>
    rw [compilesWithin_succ_iff, compile]
    refine ⟨_, walksLoops_unrollLoops (fun body item => ?_) _, rfl⟩
    exact absurd (Nat.lt_of_lt_of_le item.2 h) (Nat.not_lt_zero _)
  | succ depth ih =>
    rw [compilesWithin_succ_iff, compile]
    refine ⟨_, walksLoops_unrollLoops (fun body item => ?_) _, rfl⟩
    -- The item is nested less deep than the state, and its scope no deeper than the item.
    have hitem := item.2
    have hscope := fieldsDepth_itemScope_le item.1
    exact ih body (by omega)

/-- Compiling ends, whatever the directives answer, and its calls are nested at most one deeper than
the arrays and objects in the state. -/
theorem compilesWithin_iff {settings : Settings} {template : List Char} :
    CompilesWithin settings (Value.fieldsDepth state + 1) template state made ↔
      made = compile settings template state :=
  ⟨fun h => h.eq_compile, fun h => h ▸ compilesWithin_compile settings template (Nat.le_refl _)⟩

end Template

end LiveMarkup
