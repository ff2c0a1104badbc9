import LiveMarkup.FileTree
import LiveMarkup.Proofs.OrderedMap

/-!
# Files in a directory

Making the directories on a path changes nothing but that there are directories where nothing was
(`FileTree.AddsDirectories`). Where they have been made, making them again changes nothing, as long
as they are there (`FileTree.createDirectories_eq_self`), and the path of a file in the last one
leads to it (`FileTree.locate_entry`). Where they have not been made, nothing is found
(`FileTree.read_entry_of_addsDirectories`).
-/

namespace LiveMarkup

theorem exists_of_bind_eq_ok {ε α β : Type} {x : Except ε α} {f : α → Except ε β} {b : β}
    (h : x.bind f = .ok b) : ∃ a, x = .ok a ∧ f a = .ok b := by
  cases x with
  | error e => cases h
  | ok a => exact ⟨a, rfl, h⟩

namespace FileTree

variable {tree tree' tree'' made : FileTree} {location target other : Location}
  {path directory name : String}

theorem content?_put (hne : location ≠ []) (entry : FileEntry) :
    content? (OrderedMap.put tree location entry) other =
      if location = other then some entry else tree.content? other := by
  cases other with
  | nil => rw [if_neg hne, content?, content?]
  | cons step rest => exact OrderedMap.find?_put tree location _ entry

/-! ## Directories -/

/-- Every directory is still one. -/
def KeepsDirectories (tree tree' : FileTree) : Prop :=
  ∀ l, tree.content? l = some .directory → tree'.content? l = some .directory

/-- There are directories where nothing was, and nothing else has changed. -/
def AddsDirectories (tree tree' : FileTree) : Prop :=
  ∀ l, tree'.content? l = tree.content? l ∨
    tree.content? l = none ∧ tree'.content? l = some .directory

theorem AddsDirectories.refl (tree : FileTree) : tree.AddsDirectories tree := fun _ => .inl rfl

theorem AddsDirectories.trans (h : tree.AddsDirectories tree')
    (h' : tree'.AddsDirectories tree'') : tree.AddsDirectories tree'' := by
  intro l
  rcases h l with hl | ⟨hnone, hl⟩
  · rw [← hl]
    exact h' l
  · rcases h' l with hl' | ⟨hnone', -⟩
    · exact .inr ⟨hnone, hl'.trans hl⟩
    · exact nomatch hnone'.symm.trans hl

/-- Where directories are only added, those that there were stay. -/
theorem AddsDirectories.keepsDirectories (h : tree.AddsDirectories tree') :
    tree.KeepsDirectories tree' := by
  intro l hl
  rcases h l with he | ⟨-, he⟩
  · exact he.trans hl
  · exact he

theorem AddsDirectories.eq_none (h : tree.AddsDirectories tree')
    (hl : tree'.content? location = none) : tree.content? location = none := by
  rcases h location with he | ⟨he, -⟩
  · exact he.symm.trans hl
  · exact he

theorem ne_nil_of_content?_eq_none (h : tree.content? location = none) : location ≠ [] := by
  rintro rfl
  cases h

theorem addsDirectories_put (h : tree.content? location = none) :
    tree.AddsDirectories (OrderedMap.put tree location .directory) := by
  intro l
  rw [content?_put (ne_nil_of_content?_eq_none h)]
  split
  · next he => exact .inr ⟨he ▸ h, rfl⟩
  · exact .inl rfl

/-- To write a file keeps all directories, as long as there is none in its place. -/
theorem keepsDirectories_put (text? : Option String) (hne : location ≠ [])
    (h : tree.content? location ≠ some .directory) :
    tree.KeepsDirectories (OrderedMap.put tree location (.file text?)) := by
  intro l hl
  have hother : location ≠ l := by
    rintro rfl
    exact h hl
  rw [content?_put hne, if_neg hother]
  exact hl

/-! ## Following a path -/

theorem follow_cons (h : tree.content? location = some .directory) (step : String)
    (rest : List String) :
    tree.follow location (step :: rest) =
      (enter location step).bind fun next => tree.follow next rest := by
  rw [follow, h]

theorem content?_of_follow_cons {step : String} {rest : List String}
    (h : tree.follow location (step :: rest) = .ok target) :
    tree.content? location = some .directory := by
  rw [follow] at h
  split at h
  · cases h
  · cases h
  · assumption

/-- A path leads where it led before, if all directories stay. -/
theorem follow_of_keepsDirectories (h : tree.KeepsDirectories tree') {steps : List String}
    (hf : tree.follow location steps = .ok target) : tree'.follow location steps = .ok target := by
  induction steps generalizing location with
  | nil => exact hf
  | cons step rest ih =>
    have hd := content?_of_follow_cons hf
    rw [follow_cons hd] at hf
    obtain ⟨next, hnext, hf⟩ := exists_of_bind_eq_ok hf
    rw [follow_cons (h _ hd), hnext]
    exact ih hf

/-- Without the directories that were added, a path leads to the same place or to none. -/
theorem follow_eq_or_notFound (h : tree.AddsDirectories tree') {steps : List String}
    (hf : tree'.follow location steps = .ok target) :
    tree.follow location steps = .ok target ∨ tree.follow location steps = .error .notFound := by
  induction steps generalizing location with
  | nil => exact .inl hf
  | cons step rest ih =>
    have hd := content?_of_follow_cons hf
    rcases h location with he | ⟨he, -⟩
    · rw [follow_cons hd] at hf
      obtain ⟨next, hnext, hf⟩ := exists_of_bind_eq_ok hf
      rw [follow_cons (he.symm.trans hd), hnext]
      exact ih hf
    · rw [follow, he]
      exact .inr rfl

theorem follow_append (steps rest : List String) :
    tree.follow location (steps ++ rest) =
      (tree.follow location steps).bind fun l => tree.follow l rest := by
  induction steps generalizing location with
  | nil => rfl
  | cons step steps ih =>
    rw [List.cons_append, follow, follow]
    split
    · rfl
    · rfl
    · cases enter location step with
      | error e => rfl
      | ok next => exact ih

/-! ## Names -/

/-- A name that leads from a directory to what has this name in it. -/
structure IsPlain (name : String) : Prop where
  noSlash : '/' ∉ name.toList
  moves : isStay name = false
  ne_up : name ≠ ".."
  size_le : name.utf8ByteSize ≤ maxName

theorem IsPlain.enter (h : IsPlain name) (location : Location) :
    enter location name = .ok (location ++ [name]) := by
  rw [FileTree.enter, h.moves, if_neg Bool.false_ne_true, if_neg (mt beq_iff_eq.1 h.ne_up),
    if_neg (Nat.not_lt.2 h.size_le)]

theorem steps_append_slash (path rest : String) :
    steps (path ++ "/" ++ rest) = steps path ++ steps rest := by
  have hlist : (path ++ "/" ++ rest).toList = path.toList ++ '/' :: rest.toList := by
    rw [String.toList_append, String.toList_append, List.append_assoc]
    rfl
  rw [steps, steps, steps, hlist, List.splitOn, List.splitOn, List.splitOn,
    List.splitOnP_append_cons (p := (· == '/')) _ _ (beq_self_eq_true '/'), List.map_append]

/-- A name without a slash is the last step of the path of an entry. -/
theorem steps_entry (h : '/' ∉ name.toList) (directory : String) :
    steps (directory ++ "/" ++ name) = steps directory ++ [name] := by
  have hname : List.splitOnP (· == '/') name.toList = [name.toList] := by
    refine List.splitOnP_eq_singleton fun c hc => beq_eq_false_iff_ne.2 ?_
    rintro rfl
    exact h hc
  rw [steps_append_slash, steps.eq_def name, List.splitOn, hname, List.map_singleton,
    String.ofList_toList]

/-- The path of what has a plain name in a directory leads to it. -/
theorem locate_entry (hpath : isPath (directory ++ "/" ++ name) = true) (hname : IsPlain name)
    (hd : tree.locate directory = .ok location)
    (hc : tree.content? location = some .directory) :
    tree.locate (directory ++ "/" ++ name) = .ok (location ++ [name]) := by
  rw [locate] at hd
  split at hd
  · rw [locate, if_pos hpath, steps_entry hname.noSlash, follow_append, hd]
    change tree.follow location [name] = _
    rw [follow_cons hc, hname.enter]
    rfl
  · cases hd

theorem locate_of_keepsDirectories (h : tree.KeepsDirectories tree')
    (hl : tree.locate path = .ok location) : tree'.locate path = .ok location := by
  rw [locate] at hl ⊢
  split at hl
  · next hpath =>
    rw [if_pos hpath]
    exact follow_of_keepsDirectories h hl
  · cases hl

/-! ## Making directories -/

theorem addsDirectories_makeDirectories (tree : FileTree) (location : Location)
    (steps : List String) : tree.AddsDirectories (tree.makeDirectories location steps).2 := by
  induction steps generalizing tree location with
  | nil => exact .refl tree
  | cons step rest ih =>
    rw [makeDirectories]
    split
    · exact .refl tree
    · split
      · exact ih tree _
      · exact .refl tree
      · next hnone => exact (addsDirectories_put hnone).trans (ih _ _)

/-- Directories that were made once need not be made again. -/
theorem makeDirectories_eq_self {steps : List String}
    (h : tree.makeDirectories location steps = (.ok target, made))
    (hk : made.KeepsDirectories tree') :
    tree'.makeDirectories location steps = (.ok target, tree') := by
  induction steps generalizing tree location with
  | nil =>
    cases h
    rfl
  | cons step rest ih =>
    have hlater (next : Location) (tree₁ : FileTree) (hd : tree₁.content? next = some .directory)
        (h₁ : tree₁.makeDirectories next rest = (.ok target, made)) :
        tree'.content? next = some .directory := by
      have hadds := tree₁.addsDirectories_makeDirectories next rest
      rw [h₁] at hadds
      exact hk _ (hadds.keepsDirectories _ hd)
    rw [makeDirectories] at h ⊢
    split at h
    · cases h
    · next next _ =>
      split at h
      · next hd =>
        rw [hlater next tree hd h]
        exact ih h
      · cases h
      · next hnone =>
        have hd : content? (OrderedMap.put tree next .directory) next = some .directory := by
          rw [content?_put (ne_nil_of_content?_eq_none hnone), if_pos rfl]
        rw [hlater next _ hd h]
        exact ih h

theorem addsDirectories_createDirectories (tree : FileTree) (path : String) :
    tree.AddsDirectories (tree.createDirectories path).2 := by
  rw [createDirectories]
  split
  · exact addsDirectories_makeDirectories tree [] _
  · exact .refl tree

theorem exists_of_createDirectories (h : tree.createDirectories path = (.ok (), made)) :
    isPath path = true ∧ (∃ target, tree.makeDirectories []
        (if endsInPoint (steps path) then above (steps path) else steps path) =
          (.ok target, made)) ∧
      ∃ location, made.locate path = .ok location ∧ made.content? location = some .directory := by
  rw [createDirectories] at h
  split at h
  · next hpath =>
    obtain ⟨hresult, rfl⟩ := Prod.mk.inj h
    obtain ⟨target, htarget, hresult⟩ := exists_of_bind_eq_ok hresult
    obtain ⟨location, hlocate, hresult⟩ := exists_of_bind_eq_ok hresult
    refine ⟨hpath, ⟨target, Prod.ext htarget rfl⟩, location, hlocate, ?_⟩
    split at hresult
    · assumption
    · cases hresult
    · cases hresult
  · cases h

/-- Directories that are there are not made again. -/
theorem createDirectories_eq_self (h : tree.createDirectories path = (.ok (), made))
    (hk : made.KeepsDirectories tree') : tree'.createDirectories path = (.ok (), tree') := by
  obtain ⟨hpath, ⟨target, hmade⟩, location, hlocate, hd⟩ := exists_of_createDirectories h
  rw [createDirectories, if_pos hpath, makeDirectories_eq_self hmade hk]
  simp only [Except.bind, locate_of_keepsDirectories hk hlocate, hk _ hd]

/-- Before the directories on a path have been made, a file that is not in the last one afterwards
is not found. -/
theorem read_entry_of_addsDirectories (h : tree.AddsDirectories made)
    (hl : made.locate path = .ok location) (hc : made.content? location = none) :
    tree.read path = .error .notFound := by
  rw [locate] at hl
  split at hl
  · next hpath =>
    rw [read, locate, if_pos hpath]
    rcases follow_eq_or_notFound h hl with hf | hf
    · simp only [hf, Except.bind, h.eq_none hc]
    · rw [hf, Except.bind]
  · cases hl

/-! ## Files -/

theorem read_eq_ok {text : String} (hl : tree.locate path = .ok location)
    (hc : tree.content? location = some (.file (some text))) : tree.read path = .ok text := by
  simp only [read, hl, Except.bind, hc]

theorem write_eq_ok (text? : Option String) (hl : tree.locate path = .ok location)
    (hc : tree.content? location ≠ some .directory) :
    tree.write path text? = .ok (OrderedMap.put tree location (.file text?)) := by
  simp only [write, hl, Except.bind]

end FileTree

end LiveMarkup
