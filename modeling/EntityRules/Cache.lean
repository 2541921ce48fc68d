import EntityRules.Number.Extent
import EntityRules.Value.Text

/-! Bounded caches. -/

namespace EntityRules

/-- What is held under a key, and until when; without an expiry it is held for good. -/
structure CacheEntry (κ ν τ : Type) where
  key : κ
  value : ν
  /-- The time from which on the entry is no longer there. -/
  expiry : Option τ

structure CacheMetrics (τ : Type) where
  name : String
  size : Nat
  capacity : Extent Float
  hits : Nat
  misses : Nat
  hitRate : τ

/-- A cache from keys to values, with its entries from the one used least recently to the one used
last. -/
structure ResultCache (κ ν τ : Type) where
  name : String
  /-- The capacity as it was asked for. -/
  capacity : Extent Float
  /-- How many entries there is room for: none when the capacity is less than one. -/
  room : Nat
  /-- How long an entry stays; for good without it. -/
  ttl : Option (Extent τ)
  entries : List (CacheEntry κ ν τ) := []
  hits : Nat := 0
  misses : Nat := 0

/-- Why a capacity is not taken. -/
inductive CapacityTrouble where
  | notPositive (capacity : Extent Float)
  | notNumber (why : ExtentTrouble)

/-- The message about a capacity that is not above zero. -/
def CapacityTrouble.message : CapacityTrouble → String
  | notPositive capacity => "maxsize must be > 0, got " ++ capacity.encode.message
  | notNumber why => why.message

namespace CacheEntry

variable {κ ν τ : Type} [Scalar τ]

def isExpired (now : τ) (e : CacheEntry κ ν τ) : Bool :=
  match e.expiry with
  | some t => Scalar.le t now
  | none => false

end CacheEntry

namespace ResultCache

variable {κ ν τ : Type}

/-- The capacity of a cache when none is asked for. -/
def standardCapacity : Extent Float := .whole 1024

/-- An empty cache with a capacity above zero. -/
def create (name : String) (capacity : Extent Float) (ttl : Option (Extent τ)) :
    Except CapacityTrouble (ResultCache κ ν τ) :=
  match capacity.bound Extent.notAtMost with
  | .error why => .error (.notNumber why)
  | .ok bound =>
    if bound.isPositive then .ok { name, capacity, room := bound.floor.toNat, ttl }
    else .error (.notPositive capacity)

def clear (c : ResultCache κ ν τ) : ResultCache κ ν τ := { c with entries := [] }

variable [Scalar τ]

/-- Takes out the entries whose time is over. -/
def purge (c : ResultCache κ ν τ) (now : τ) : ResultCache κ ν τ :=
  { c with entries := c.entries.filter (!·.isExpired now) }

/-- How many entries there are at a time. -/
def size (c : ResultCache κ ν τ) (now : τ) : Nat := (c.purge now).entries.length

def metrics (c : ResultCache κ ν τ) (now : τ) : CacheMetrics τ :=
  { name := c.name, size := c.size now, capacity := c.capacity, hits := c.hits
    misses := c.misses
    hitRate :=
      if c.hits + c.misses = 0 then 0
      else Scalar.count c.hits / Scalar.count (c.hits + c.misses) }

variable [DecidableEq κ]

/-- Takes out the entry of a key. -/
def invalidate (c : ResultCache κ ν τ) (key : κ) : ResultCache κ ν τ :=
  { c with entries := c.entries.filter (·.key ≠ key) }

def find? (c : ResultCache κ ν τ) (key : κ) : Option (CacheEntry κ ν τ) :=
  c.entries.find? (·.key = key)

/-- Counts a look-up that found nothing. -/
def miss (c : ResultCache κ ν τ) : ResultCache κ ν τ := { c with misses := c.misses + 1 }

/-- Looks a key up. A value that is found counts as used; an entry whose time is over is taken
out. -/
def get (c : ResultCache κ ν τ) (key : κ) (now : τ) : Option ν × ResultCache κ ν τ :=
  match c.find? key with
  | none => (none, c.miss)
  | some e =>
    let rest := (c.invalidate key).entries
    if e.isExpired now then (none, { c with entries := rest }.miss)
    else (some e.value, { c with entries := rest ++ [e], hits := c.hits + 1 })

/-- Stores a value as the one used last, for good or until a time. Entries whose time is over make
room first, then those used least recently. -/
def store (c : ResultCache κ ν τ) (key : κ) (value : ν) (expiry : Option τ) (now : τ) :
    ResultCache κ ν τ :=
  let entries := ((c.purge now).invalidate key).entries ++ [⟨key, value, expiry⟩]
  { c with entries := entries.drop (entries.length - c.room) }

/-- The time at which what is stored now is over. -/
def expiry (c : ResultCache κ ν τ) (now : τ) : Except ExtentTrouble (Option τ) :=
  match c.ttl with
  | none => .ok none
  | some ttl => ttl.scalar.map fun t => some (now + t)

/-- Stores a value as the one used last; fails when it cannot be told how long it stays. -/
def set (c : ResultCache κ ν τ) (key : κ) (value : ν) (now : τ) :
    Except ExtentTrouble (ResultCache κ ν τ) :=
  (c.expiry now).map fun expiry => c.store key value expiry now

theorem length_store_le (c : ResultCache κ ν τ) (key : κ) (value : ν) (expiry : Option τ)
    (now : τ) : (c.store key value expiry now).entries.length ≤ c.room := by
  simp only [store, List.length_drop]
  omega

theorem find?_store (c : ResultCache κ ν τ) (key : κ) (value : ν) (expiry : Option τ) (now : τ)
    (hc : 0 < c.room) : ((c.store key value expiry now).find? key).map (·.value) = some value := by
  have h : ∀ es : List (CacheEntry κ ν τ), ∀ e : CacheEntry κ ν τ, ∀ n,
      (∀ x ∈ es, x.key ≠ e.key) → n ≤ es.length →
      ((es ++ [e]).drop n).find? (·.key = e.key) = some e := by
    intro es e n hes hn
    rw [List.drop_append_of_le_length hn, List.find?_append]
    have : (es.drop n).find? (fun x => decide (x.key = e.key)) = none := by
      simp only [List.find?_eq_none, decide_eq_true_eq]
      exact fun x hx => hes x (List.mem_of_mem_drop hx)
    simp [this]
  unfold find? store
  rw [h _ ⟨key, value, expiry⟩]
  · rfl
  · simp [invalidate]
  · simp only [List.length_append, List.length_singleton]
    omega

end ResultCache

end EntityRules
