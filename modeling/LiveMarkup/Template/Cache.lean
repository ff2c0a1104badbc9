import LiveMarkup.Error
import LiveMarkup.OrderedMap

/-!
# A cache of templates

Fetched templates by their locators, in the order in which they were stored. A template may be used
for a certain time after it was stored. When the cache is full, the template that was stored longest
ago gives way, whether it is still used or not.

Times are counted in one unit from any start. A clock may go back; a template that is stored in the
future counts as stored just now.
-/

namespace LiveMarkup

/-- A template and the time at which it was stored. -/
structure CachedTemplate where
  text : String
  storedAt : Nat
  deriving DecidableEq, Repr

/-- A cache of at most `limit` templates, each for less than `lifetime`. -/
structure TemplateCache where
  limit : Nat
  lifetime : Nat
  entries : OrderedMap String CachedTemplate := []
  deriving DecidableEq, Repr

namespace TemplateCache

/-- How many templates are stored. -/
def size (cache : TemplateCache) : Nat := cache.entries.length

/-- The cache without its templates. -/
def clear (cache : TemplateCache) : TemplateCache := { cache with entries := [] }

/-- The template for a locator. One that is too old is removed. -/
def get (cache : TemplateCache) (locator : String) (now : Nat) : Option String × TemplateCache :=
  match OrderedMap.find? cache.entries locator with
  | none => (none, cache)
  | some entry =>
    if now - entry.storedAt < cache.lifetime then (some entry.text, cache)
    else (none, { cache with entries := OrderedMap.erase cache.entries locator })

/-- The cache with a template stored as the newest one. -/
def insert (cache : TemplateCache) (locator text : String) (now : Nat) : TemplateCache :=
  if cache.limit = 0 then cache
  else
    let others := OrderedMap.erase cache.entries locator
    let kept := others.drop (others.length + 1 - cache.limit)
    { cache with entries := kept ++ [(locator, ⟨text, now⟩)] }

/-- The template for a locator, which is fetched and stored if it is not there. A failure is not
stored. -/
def getOrFetch {m : Type → Type} [Monad m] (fetch : String → m (Except FetchError String))
    (cache : TemplateCache) (locator : String) (now : Nat) :
    m (Except FetchError String × TemplateCache) :=
  match cache.get locator now with
  | (some text, cache) => pure (.ok text, cache)
  | (none, cache) => do
    match ← fetch locator with
    | .ok text => pure (.ok text, cache.insert locator text now)
    | .error e => pure (.error e, cache)

end TemplateCache

end LiveMarkup
