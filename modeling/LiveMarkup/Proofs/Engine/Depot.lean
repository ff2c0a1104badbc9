import LiveMarkup.Engine.Render
import LiveMarkup.Proofs.Engine.Ensuring
import LiveMarkup.Proofs.Storage

/-!
# Storages that can be relied on

An engine keeps states in a storage, which may read and change the files and the state of the caller
(`Depot`). A `Keeper` is what is relied on about it, under one key: calls succeed, and what is
loaded is what was saved last. Both storages that are built in can be relied on (`Keeper.memory`,
`Keeper.files`), for all states that are read back from their texts.

With such a storage, `Run.persist` and `Run.restore` do nothing but saving and loading
(`Keeper.exists_persist`, `Keeper.exists_restore`).
-/

namespace LiveMarkup

variable {σ : Type}

/-- A storage with all that it reads and changes. -/
structure Depot (σ : Type) where
  storage : StateStorage σ
  files : FileTree
  host : σ

namespace Depot

/-- Loads the state under a key. -/
def load (d : Depot σ) (key : String) : Except StorageError (Option Fields) × Depot σ :=
  match d.storage with
  | .builtin storage => (storage.load d.files key, d)
  | .custom load _ =>
    let (result, host) := load key d.host
    (result, { d with host })

/-- Saves a state under a key. -/
def save (d : Depot σ) (key : String) (state : Fields) : Except StorageError Unit × Depot σ :=
  match d.storage with
  | .builtin storage =>
    let (result, storage, files) := storage.save d.files key state
    (result, { d with storage := .builtin storage, files })
  | .custom _ save =>
    let (result, host) := save key state d.host
    (result, { d with host })

end Depot

namespace World

/-- Where the engine keeps states. -/
def depot? (w : World σ) : Option (Depot σ) :=
  w.engine.storage.map fun storage => ⟨storage, w.files, w.host⟩

/-- The world after a call of the storage. -/
def withDepot (w : World σ) (d : Depot σ) : World σ :=
  { w with host := d.host, engine := { w.engine with storage := some d.storage }, files := d.files }

/-- The key under which the engine keeps states. -/
def storageKey? (w : World σ) : Option String := w.engine.config.persistence.map (·.storageKey)

theorem withDepot_of_storage {w : World σ} {storage : StateStorage σ}
    (h : w.engine.storage = some storage) (host : σ) :
    w.withDepot ⟨storage, w.files, host⟩ = { w with host } := by
  rw [withDepot, ← h]

end World

/-- What is relied on about a storage: how it is seen that it holds a state under a key, or none,
and that it does what it is asked. States that fit can be saved. -/
structure Keeper (σ : Type) where
  key : String
  Fits : Fields → Prop
  Holds : Depot σ → Option Fields → Prop
  load : ∀ {d state?}, Holds d state? → ∃ d', d.load key = (.ok state?, d') ∧ Holds d' state?
  save : ∀ {d state? state}, Holds d state? → Fits state →
    ∃ d', d.save key state = (.ok (), d') ∧ Holds d' (some state)

namespace Keeper

variable {w : World σ} {d : Depot σ} {state? : Option Fields} {state : Fields}

/-- What the caller makes of his own state is no matter to the storage. -/
def Spares (k : Keeper σ) (f : σ → σ) : Prop :=
  ∀ d state?, k.Holds d state? → k.Holds { d with host := f d.host } state?

/-! ## The built-in storages -/

/-- A storage in memory. -/
def memory (key : String) : Keeper σ where
  key := key
  Fits := Storage.ReadsBack
  Holds d state? := ∃ entries states, d.storage = .builtin (.memory entries) ∧
    MemoryStorage.Keeps entries states ∧ states key = state?
  load := by
    rintro d state? ⟨entries, states, hd, hkeeps, hstate⟩
    refine ⟨d, ?_, entries, states, hd, hkeeps, hstate⟩
    simp only [Depot.load, hd, Storage.load, hkeeps.load, hstate]
  save := by
    rintro d state? state ⟨entries, states, hd, hkeeps, hstate⟩ hfits
    refine ⟨{ d with storage := .builtin (.memory (entries.save key state)) }, ?_, _, _, rfl,
      hkeeps.save hfits key, Function.update_self ..⟩
    simp only [Depot.save, hd, Storage.save]

/-- A storage in the files of a directory. -/
def files (storage : FileStorage) (key : String) (hkey : storage.Admits key) : Keeper σ where
  key := key
  Fits := Storage.ReadsBack
  Holds d state? := d.storage = .builtin (.files storage) ∧ ∃ location states,
    storage.Keeps d.files location states ∧ states (FileStorage.fileName key) = state?
  load := by
    rintro d state? ⟨hd, location, states, hkeeps, hstate⟩
    refine ⟨d, ?_, hd, location, states, hkeeps, hstate⟩
    simp only [Depot.load, hd, Storage.load, hkeeps.load hkey, hstate]
  save := by
    rintro d state? state ⟨hd, location, states, hkeeps, hstate⟩ hfits
    obtain ⟨files', hsave, hkeeps'⟩ := hkeeps.save hkeeps.made hfits hkey
    refine ⟨{ d with storage := .builtin (.files storage), files := files' }, ?_, rfl, location, _,
      hkeeps', Function.update_self ..⟩
    simp only [Depot.save, hd, Storage.save, hsave]

theorem spares_memory (key : String) (f : σ → σ) : (memory key).Spares f := fun _ _ h => h

theorem spares_files {storage : FileStorage} {key : String} (hkey : storage.Admits key)
    (f : σ → σ) : (files storage key hkey).Spares f := fun _ _ h => h

/-! ## Keeping and restoring -/

/-- What is to be kept is saved. -/
theorem exists_persist (k : Keeper σ) (hkey : w.storageKey? = some k.key) (hd : w.depot? = some d)
    (hholds : k.Holds d state?) (hfits : k.Fits state) :
    ∃ d', Run.persist state w = some ((), w.withDepot d') ∧ k.Holds d' (some state) := by
  obtain ⟨persistence, hp, hpkey⟩ := Option.map_eq_some_iff.1 hkey
  obtain ⟨storage, hs, rfl⟩ := Option.map_eq_some_iff.1 hd
  obtain ⟨d', hsave, hholds'⟩ := k.save hholds hfits
  refine ⟨d', ?_, hholds'⟩
  unfold Run.persist
  refine Run.bind_eq_some_iff.2 ⟨w, w, rfl, ?_⟩
  rw [hp, hs]
  dsimp only
  rw [hpkey]
  cases storage with
  | builtin storage =>
    dsimp only [Depot.save] at hsave ⊢
    rcases hresult : storage.save w.files k.key state with ⟨result, storage', files'⟩
    rw [hresult] at hsave
    cases hsave
    rfl
  | custom load save =>
    dsimp only [Depot.save] at hsave ⊢
    rcases hresult : save k.key state w.host with ⟨result, host'⟩
    rw [hresult] at hsave
    cases hsave
    rw [World.withDepot_of_storage hs]
    refine Run.bind_eq_some_iff.2 ⟨.ok (), { w with host := host' }, ?_, rfl⟩
    change some (_, _) = _
    rw [hresult]

/-- What is restored is what is loaded. -/
theorem exists_restore (k : Keeper σ) (hkey : w.storageKey? = some k.key) (hd : w.depot? = some d)
    (hholds : k.Holds d state?) :
    ∃ d', Run.restore w = some (state?.map .ofFields, w.withDepot d') ∧ k.Holds d' state? := by
  obtain ⟨persistence, hp, hpkey⟩ := Option.map_eq_some_iff.1 hkey
  obtain ⟨storage, hs, rfl⟩ := Option.map_eq_some_iff.1 hd
  obtain ⟨d', hload, hholds'⟩ := k.load hholds
  refine ⟨d', ?_, hholds'⟩
  unfold Run.restore
  refine Run.bind_eq_some_iff.2 ⟨w, w, rfl, ?_⟩
  rw [hp, hs]
  dsimp only
  rw [hpkey]
  cases storage with
  | builtin storage =>
    dsimp only [Depot.load] at hload ⊢
    obtain ⟨hresult, rfl⟩ := Prod.mk.inj hload
    rw [World.withDepot_of_storage hs, hresult]
    rfl
  | custom load save =>
    dsimp only [Depot.load] at hload ⊢
    rcases hresult : load k.key w.host with ⟨result, host'⟩
    rw [hresult] at hload
    cases hload
    rw [World.withDepot_of_storage hs]
    refine Run.bind_eq_some_iff.2 ⟨.ok state?, { w with host := host' }, ?_, rfl⟩
    change some (_, _) = _
    rw [hresult]

end Keeper

end LiveMarkup
