import LiveMarkup.Dom.Arena
import LiveMarkup.State.Path

/-!
# Programs of a caller

What a caller hands over to be run later (listeners, event handlers, directives, middleware) may
write back into states, and so lead to further calls. It is given as a `Program`: a sequence of
commands, each with what follows on its answer. A program is data, so that the store in which a
listener is kept is data too.

`σ` is the state of the caller itself, which commands `ask` and `tell` read and change.
-/

namespace LiveMarkup

/-- The name of a store of a state. -/
abbrev StoreId := Nat

/-- The name of a session. -/
abbrev SessionId := Nat

/-- The name of a subscription, told apart from the others on one store. -/
abbrev SubscriptionId := UInt64

/-- A handle of a value in a state: the store, and the path from its root. -/
structure Handle where
  store : StoreId
  path : Path
  deriving DecidableEq, Repr, Inhabited

/-- The handle of the root of a store. -/
def Handle.root (store : StoreId) : Handle := ⟨store, []⟩

/-- A sequence of commands of a caller with state `σ`. -/
inductive Program (σ : Type)
  | done
  /-- Looks at the caller's state. -/
  | ask (next : σ → Program σ)
  /-- Changes the caller's state. -/
  | tell (f : σ → σ) (next : Program σ)
  /-- The value that a handle points at. -/
  | value (h : Handle) (next : Option Value → Program σ)
  /-- Writes a value under a key; whether anything changed. -/
  | set (h : Handle) (key : String) (v : Value) (next : Bool → Program σ)
  /-- Writes a value at an index; whether anything changed. -/
  | setIndex (h : Handle) (index : Nat) (v : Value) (next : Bool → Program σ)
  /-- Removes a key; the value that was there. -/
  | remove (h : Handle) (key : String) (next : Option Value → Program σ)
  /-- Writes all entries of a state; how many changed. -/
  | merge (h : Handle) (entries : Fields) (next : Nat → Program σ)
  /-- Has a program run on every change. -/
  | subscribe (store : StoreId) (listener : Program σ) (next : SubscriptionId → Program σ)
  /-- Ends a subscription; whether there was one. -/
  | unsubscribe (store : StoreId) (id : SubscriptionId) (next : Bool → Program σ)
  /-- Registers a directive, with its text and the commands of its expansion. -/
  | addDirective (name : String) (expand : List Char → List Char → Fields → List Char)
      (script : List Char → List Char → Fields → Program σ) (next : Program σ)
  /-- Makes a store for a state that belongs to no session. -/
  | create (state : Fields) (next : StoreId → Program σ)
  /-- The root of what a session shows. -/
  | element (s : SessionId) (next : Option NodeId → Program σ)
  /-- The markup of what a session shows. -/
  | outerHtml (s : SessionId) (next : Option String → Program σ)
  /-- Has a session render from the start; the new root. -/
  | render (s : SessionId) (next : Option NodeId → Program σ)

instance {σ : Type} : Inhabited (Program σ) := ⟨.done⟩

/-- What is called when something happens. -/
inductive Callback (σ : Type)
  | script (p : Program σ)
  /-- A session shows the changed state. -/
  | refresh (s : SessionId)

/-- A middleware: the commands it gives, and the state it makes of the next and the old one, or the
text of its failure. -/
structure Middleware (σ : Type) where
  script : Fields → Fields → Program σ
  apply : Fields → Fields → Except String Fields

/-- A directive with the commands of its expansion. -/
structure ActiveDirective (σ : Type) where
  expand : List Char → List Char → Fields → List Char
  script : List Char → List Char → Fields → Program σ

/-- An event handler: the commands it gives on the handle of a session's state. -/
abbrev EventHandler (σ : Type) := Handle → Program σ

end LiveMarkup
