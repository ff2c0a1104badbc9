import LiveMarkup.Proofs.FileTree
import LiveMarkup.Storage
import Mathlib

/-!
# Storages as maps

What a storage answers to calls is what a map of states answers. In memory the map is from keys
(`Storage.answers_memory`); in a directory it is from the names of files
(`Storage.answers_files`). So both answer alike exactly as long as the keys that are used are told
apart by the names of their files (`Storage.answers_files_eq_iff`).
-/

namespace LiveMarkup

namespace Storage

/-! ## Calls -/

/-- A call of a storage. -/
inductive Call
  | save (key : String) (state : Fields)
  | load (key : String)

/-- What a storage answers to a call. -/
inductive Answer
  | saved (result : Except StorageError Unit)
  | loaded (result : Except StorageError (Option Fields))

/-- A state is read back from its texts. -/
structure ReadsBack (state : Fields) : Prop where
  compact : Value.ofText (Value.object state).compact = .ok (.object state)
  pretty : Value.ofText ((Value.object state).pretty 0) = .ok (.object state)

namespace Call

def key : Call → String
  | save key _ => key
  | load key => key

/-- What is saved is a state that is read back. -/
def ReadsBack : Call → Prop
  | save _ state => Storage.ReadsBack state
  | load _ => True

end Call

/-- What a storage answers to calls, one after the other. -/
def answers (storage : Storage) (tree : FileTree) : List Call → List Answer
  | [] => []
  | .save key state :: rest =>
    let (result, storage, tree) := storage.save tree key state
    .saved result :: answers storage tree rest
  | .load key :: rest => .loaded (storage.load tree key) :: answers storage tree rest

/-- What a map answers that has the state for a key under the name of the key. -/
def mapAnswers (name : String → String) (states : String → Option Fields) : List Call → List Answer
  | [] => []
  | .save key state :: rest =>
    .saved (.ok ()) :: mapAnswers name (Function.update states (name key) (some state)) rest
  | .load key :: rest => .loaded (.ok (states (name key))) :: mapAnswers name states rest

/-- Keys may be renamed, as long as they are told apart. -/
theorem mapAnswers_eq_of_injOn {name : String → String} {keys : Set String}
    (hname : Set.InjOn name keys) {states states' : String → Option Fields}
    (hstates : ∀ key ∈ keys, states (name key) = states' key) {calls : List Call}
    (hcalls : ∀ c ∈ calls, c.key ∈ keys) :
    mapAnswers name states calls = mapAnswers id states' calls := by
  induction calls generalizing states states' with
  | nil => rfl
  | cons c rest ih =>
    rw [List.forall_mem_cons] at hcalls
    cases c with
    | save key state =>
      obtain ⟨hkey : key ∈ keys, hrest⟩ := hcalls
      rw [mapAnswers, mapAnswers, ih (fun other hother => ?_) hrest]
      simp only [Function.update_apply, id, hname.eq_iff hother hkey, hstates other hother]
    | load key =>
      obtain ⟨hkey : key ∈ keys, hrest⟩ := hcalls
      rw [mapAnswers, mapAnswers, hstates key hkey, id, ih hstates hrest]

theorem readState_eq {state : Fields} {text : String} (key : String)
    (h : Value.ofText text = .ok (.object state)) : readState key text = .ok state := by
  simp only [readState, h]

end Storage

open Storage

/-! ## In memory -/

namespace MemoryStorage

/-- The states of a map are kept. -/
structure Keeps (entries : MemoryStorage) (states : String → Option Fields) : Prop where
  texts : ∀ key, OrderedMap.find? entries key = (states key).map fun s => (Value.object s).compact
  readsBack : ∀ key s, states key = some s → ReadsBack s

variable {entries : MemoryStorage} {states : String → Option Fields}

theorem keeps_nil : Keeps [] fun _ => none := ⟨fun _ => rfl, nofun⟩

theorem Keeps.load (h : entries.Keeps states) (key : String) :
    entries.load key = .ok (states key) := by
  rw [MemoryStorage.load, h.texts]
  cases hs : states key with
  | none => rfl
  | some s =>
    change (readState key (Value.object s).compact).map some = _
    rw [readState_eq key (h.readsBack key s hs).compact]
    rfl

theorem readsBack_update {state : Fields} (h : ∀ key s, states key = some s → ReadsBack s)
    (hstate : ReadsBack state) (key other : String) (s : Fields)
    (hs : Function.update states key (some state) other = some s) : ReadsBack s := by
  rw [Function.update_apply] at hs
  split at hs
  · exact Option.some.inj hs ▸ hstate
  · exact h other s hs

theorem Keeps.save (h : entries.Keeps states) {state : Fields} (hstate : ReadsBack state)
    (key : String) :
    (entries.save key state).Keeps (Function.update states key (some state)) := by
  refine ⟨fun other => ?_, readsBack_update h.readsBack hstate key⟩
  rw [MemoryStorage.save, OrderedMap.find?_put, h.texts, Function.update_apply]
  by_cases he : key = other
  · rw [if_pos he, if_pos he.symm, Option.map_some]
  · rw [if_neg he, if_neg (Ne.symm he)]

end MemoryStorage

namespace Storage

theorem answers_memory {entries : MemoryStorage} {states : String → Option Fields}
    (h : entries.Keeps states) (tree : FileTree) {calls : List Call}
    (hcalls : ∀ c ∈ calls, c.ReadsBack) :
    (memory entries).answers tree calls = mapAnswers id states calls := by
  induction calls generalizing entries states with
  | nil => rfl
  | cons c rest ih =>
    rw [List.forall_mem_cons] at hcalls
    obtain ⟨hc, hrest⟩ := hcalls
    cases c with
    | save key state =>
      change Answer.saved _ :: (memory (entries.save key state)).answers tree rest = _
      rw [ih (h.save hc key) hrest]
      rfl
    | load key =>
      change Answer.loaded (entries.load key) :: (memory entries).answers tree rest = _
      rw [ih h hrest, h.load]
      rfl

end Storage

/-! ## In files -/

namespace FileStorage

open FileTree

/-- The directory can be made, and is then empty. -/
def StartsEmpty (storage : FileStorage) (tree : FileTree) : Prop :=
  ∃ made location, tree.createDirectories storage.directory = (.ok (), made) ∧
    made.locate storage.directory = .ok location ∧
    ∀ name, made.content? (location ++ [name]) = none

/-- The path and the name of the file for a key are of ordinary length. -/
structure Admits (storage : FileStorage) (key : String) : Prop where
  isPath : isPath (storage.path key) = true
  size_le : (fileName key).utf8ByteSize ≤ maxName

/-- The states of a map from names of files are kept in a directory. -/
structure Keeps (storage : FileStorage) (tree : FileTree) (location : Location)
    (states : String → Option Fields) : Prop where
  made : tree.createDirectories storage.directory = (.ok (), tree)
  locate : tree.locate storage.directory = .ok location
  isDirectory : tree.content? location = some .directory
  texts : ∀ name, tree.content? (location ++ [name]) =
    (states name).map fun s => .file (some ((Value.object s).pretty 0))
  readsBack : ∀ name s, states name = some s → ReadsBack s

variable {storage : FileStorage} {tree made : FileTree} {location : Location}
  {states : String → Option Fields} {key : String}

theorem toList_fileName (key : String) :
    (fileName key).toList =
      (key.toList.map fun c => if isNameChar c then c else '_') ++ ".json".toList := by
  rw [fileName, String.toList_append, String.toList_ofList]

theorem Admits.isPlain (h : storage.Admits key) : IsPlain (fileName key) := by
  have hlong : 4 < (fileName key).toList.length := by
    rw [toList_fileName, List.length_append]
    exact Nat.lt_of_lt_of_le (by decide) (Nat.le_add_left _ _)
  have hne (name : String) (hname : name.toList.length ≤ 4) : fileName key ≠ name := by
    rintro rfl
    exact absurd hlong (Nat.not_lt.2 hname)
  refine ⟨fun hslash => ?_, ?_, hne ".." (by decide), h.size_le⟩
  · rw [toList_fileName, List.mem_append, List.mem_map] at hslash
    rcases hslash with ⟨c, -, hc⟩ | hc
    · split at hc
      · next hname =>
        subst hc
        exact absurd hname (by decide)
      · cases hc
    · exact absurd hc (by decide)
  · rw [isStay, Bool.or_eq_false_iff]
    exact ⟨String.isEmpty_eq_false_iff.2 (hne "" (by decide)),
      beq_eq_false_iff_ne.2 (hne "." (by decide))⟩

theorem Keeps.load (h : storage.Keeps tree location states) (hkey : storage.Admits key) :
    storage.load tree key = .ok (states (fileName key)) := by
  have hl : tree.locate (storage.path key) = .ok (location ++ [fileName key]) :=
    locate_entry hkey.isPath hkey.isPlain h.locate h.isDirectory
  have hc := h.texts (fileName key)
  rw [FileStorage.load]
  cases hs : states (fileName key) with
  | none =>
    rw [hs] at hc
    rw [read_entry_of_addsDirectories (.refl tree) hl hc]
  | some s =>
    rw [hs] at hc
    rw [read_eq_ok hl hc]
    change (readState key _).map some = _
    rw [readState_eq key (h.readsBack _ s hs).pretty]
    rfl

/-- What is saved is kept, also if the directory had to be made for it. -/
theorem Keeps.save (h : storage.Keeps made location states)
    (hmade : tree.createDirectories storage.directory = (.ok (), made)) {state : Fields}
    (hstate : ReadsBack state) (hkey : storage.Admits key) :
    ∃ tree', storage.save tree key state = (.ok (), tree') ∧
      storage.Keeps tree' location (Function.update states (fileName key) (some state)) := by
  have hl : made.locate (storage.path key) = .ok (location ++ [fileName key]) :=
    locate_entry hkey.isPath hkey.isPlain h.locate h.isDirectory
  have hc : made.content? (location ++ [fileName key]) ≠ some .directory := by
    rw [h.texts]
    cases states (fileName key) <;> nofun
  have hne : location ++ [fileName key] ≠ [] := List.append_ne_nil_of_right_ne_nil _ nofun
  have hkeeps := keepsDirectories_put (some ((Value.object state).pretty 0)) hne hc
  refine ⟨_, ?_, createDirectories_eq_self h.made hkeeps,
    locate_of_keepsDirectories hkeeps h.locate, hkeeps _ h.isDirectory, fun name => ?_,
    MemoryStorage.readsBack_update h.readsBack hstate (fileName key)⟩
  · simp only [FileStorage.save, hmade, write_eq_ok _ hl hc]
  · rw [content?_put hne, h.texts, Function.update_apply]
    by_cases he : fileName key = name
    · rw [if_pos (by rw [he]), if_pos he.symm, Option.map_some]
    · rw [if_neg fun hl => he (List.singleton_inj.1 (List.append_cancel_left hl)),
        if_neg (Ne.symm he)]

theorem StartsEmpty.exists_keeps (h : storage.StartsEmpty tree) :
    ∃ made location, tree.createDirectories storage.directory = (.ok (), made) ∧
      tree.AddsDirectories made ∧ storage.Keeps made location fun _ => none := by
  obtain ⟨made, location, hmade, hl, hempty⟩ := h
  obtain ⟨-, -, location', hl', hd⟩ := exists_of_createDirectories hmade
  obtain rfl := Except.ok.inj (hl.symm.trans hl')
  have hadds := addsDirectories_createDirectories tree storage.directory
  rw [hmade] at hadds
  exact ⟨made, location, hmade, hadds,
    createDirectories_eq_self hmade (AddsDirectories.refl made).keepsDirectories, hl, hd, hempty,
    nofun⟩

end FileStorage

namespace Storage

open FileStorage

variable {storage : FileStorage} {tree : FileTree} {calls : List Call}

theorem answers_files_of_keeps {location : Location} {states : String → Option Fields}
    (h : storage.Keeps tree location states)
    (hcalls : ∀ c ∈ calls, storage.Admits c.key ∧ c.ReadsBack) :
    (files storage).answers tree calls = mapAnswers fileName states calls := by
  induction calls generalizing tree states with
  | nil => rfl
  | cons c rest ih =>
    rw [List.forall_mem_cons] at hcalls
    cases c with
    | save key state =>
      obtain ⟨⟨hkey : storage.Admits key, hc⟩, hrest⟩ := hcalls
      obtain ⟨tree', hsave, hkeeps⟩ := h.save h.made hc hkey
      simp only [answers, Storage.save, hsave, mapAnswers, ih hkeeps hrest]
    | load key =>
      obtain ⟨⟨hkey : storage.Admits key, -⟩, hrest⟩ := hcalls
      simp only [answers, Storage.load, h.load hkey, mapAnswers, ih h hrest]

/-- In a directory that is empty at first, the states are kept under the names of the files. -/
theorem answers_files (h : storage.StartsEmpty tree)
    (hcalls : ∀ c ∈ calls, storage.Admits c.key ∧ c.ReadsBack) :
    (files storage).answers tree calls = mapAnswers fileName (fun _ => none) calls := by
  obtain ⟨made, location, hmade, hadds, hkeeps⟩ := h.exists_keeps
  induction calls with
  | nil => rfl
  | cons c rest ih =>
    rw [List.forall_mem_cons] at hcalls
    cases c with
    | save key state =>
      obtain ⟨⟨hkey : storage.Admits key, hc⟩, hrest⟩ := hcalls
      obtain ⟨tree', hsave, hkeeps'⟩ := hkeeps.save hmade hc hkey
      simp only [answers, Storage.save, hsave, mapAnswers, answers_files_of_keeps hkeeps' hrest]
    | load key =>
      obtain ⟨⟨hkey : storage.Admits key, -⟩, hrest⟩ := hcalls
      have hl := FileTree.locate_entry hkey.isPath hkey.isPlain hkeeps.locate hkeeps.isDirectory
      have hload : storage.load tree key = .ok none := by
        rw [FileStorage.load, FileStorage.path,
          FileTree.read_entry_of_addsDirectories hadds hl (hkeeps.texts _)]
      simp only [answers, Storage.load, hload, mapAnswers, ih hrest]

theorem readsBack_nil : ReadsBack [] := ⟨by cbv, by cbv⟩

/-- A storage in a directory that is empty at first answers like one in memory exactly if the keys
that are used are told apart by the names of their files. -/
theorem answers_files_eq_iff {keys : Set String} (hempty : storage.StartsEmpty tree)
    (hkeys : ∀ key ∈ keys, storage.Admits key) :
    (∀ calls : List Call, (∀ c ∈ calls, c.key ∈ keys ∧ c.ReadsBack) →
      (files storage).answers tree calls = (memory []).answers tree calls) ↔
        Set.InjOn fileName keys := by
  have hadmits {calls : List Call} (hcalls : ∀ c ∈ calls, c.key ∈ keys ∧ c.ReadsBack) :
      ∀ c ∈ calls, storage.Admits c.key ∧ c.ReadsBack :=
    fun c hc => ⟨hkeys _ (hcalls c hc).1, (hcalls c hc).2⟩
  have hmemory {calls : List Call} (hcalls : ∀ c ∈ calls, c.key ∈ keys ∧ c.ReadsBack) :
      (memory []).answers tree calls = mapAnswers id (fun _ => none) calls :=
    answers_memory MemoryStorage.keeps_nil tree fun c hc => (hcalls c hc).2
  constructor
  · intro h key hkey other hother hname
    by_contra hne
    have hcalls : ∀ c ∈ [Call.save key [], .load other], c.key ∈ keys ∧ c.ReadsBack := by
      rw [List.forall_mem_cons, List.forall_mem_singleton]
      exact ⟨⟨hkey, readsBack_nil⟩, hother, trivial⟩
    have heq := h _ hcalls
    rw [answers_files hempty (hadmits hcalls), hmemory hcalls] at heq
    simp only [mapAnswers, hname, Function.update_self, id,
      Function.update_of_ne (Ne.symm hne)] at heq
    simp at heq
  · intro hname calls hcalls
    rw [answers_files hempty (hadmits hcalls), hmemory hcalls]
    exact mapAnswers_eq_of_injOn hname (fun _ _ => rfl) fun c hc => (hcalls c hc).1

theorem startsEmpty_states : StartsEmpty ⟨"states"⟩ [] :=
  ⟨[(["states"], .directory)], ["states"], by decide +kernel, by decide +kernel, fun _ => rfl⟩

/-- Two keys without other characters than those of names are told apart. -/
theorem answers_files_eq_iff_of_plain_keys :
    let storage : FileStorage := ⟨"states"⟩
    let keys : Set String := {"one", "Two-2"}
    storage.StartsEmpty [] ∧ (∀ key ∈ keys, storage.Admits key) ∧
      ∀ calls : List Call, (∀ c ∈ calls, c.key ∈ keys ∧ c.ReadsBack) →
        (files storage).answers [] calls = (memory []).answers [] calls := by
  intro storage keys
  have hkeys : ∀ key ∈ keys, storage.Admits key := by
    rintro key (rfl | rfl)
    · exact ⟨by decide +kernel, by decide +kernel⟩
    · exact ⟨by decide +kernel, by decide +kernel⟩
  refine ⟨startsEmpty_states, hkeys, (answers_files_eq_iff startsEmpty_states hkeys).2 ?_⟩
  rintro key (rfl | rfl) other (rfl | rfl) hname
  · rfl
  · exact absurd hname (by decide +kernel)
  · exact absurd hname (by decide +kernel)
  · rfl

/-- What is saved under one key is loaded under another one, if their files have the same name. -/
theorem files_mix_keys :
    let storage : FileStorage := ⟨"states"⟩
    let calls : List Call := [.save "a/b" [("of", .null)], .save "a_b" [], .load "a/b"]
    storage.StartsEmpty [] ∧ (∀ c ∈ calls, storage.Admits c.key ∧ c.ReadsBack) ∧
      (files storage).answers [] calls =
        [.saved (.ok ()), .saved (.ok ()), .loaded (.ok (some []))] ∧
      (memory []).answers [] calls =
        [.saved (.ok ()), .saved (.ok ()), .loaded (.ok (some [("of", .null)]))] := by
  intro storage calls
  have hadmits : ∀ key ∈ ["a/b", "a_b"], storage.Admits key := by
    rw [List.forall_mem_cons, List.forall_mem_singleton]
    exact ⟨⟨by decide +kernel, by decide +kernel⟩, by decide +kernel, by decide +kernel⟩
  have hreads : ReadsBack [("of", .null)] := ⟨by cbv, by cbv⟩
  have hcalls : ∀ c ∈ calls, storage.Admits c.key ∧ c.ReadsBack := by
    rw [List.forall_mem_cons, List.forall_mem_cons, List.forall_mem_singleton]
    exact ⟨⟨hadmits _ (by decide), hreads⟩, ⟨hadmits _ (by decide), readsBack_nil⟩,
      hadmits _ (by decide), trivial⟩
  refine ⟨startsEmpty_states, hcalls, ?_, ?_⟩
  · rw [answers_files startsEmpty_states hcalls]
    rfl
  · rw [answers_memory MemoryStorage.keeps_nil [] fun c hc => (hcalls c hc).2]
    rfl

end Storage

end LiveMarkup
