import EntityRules.Proofs.Cache
import EntityRules.Proofs.Number.Sum
import Mathlib.Data.List.Chain
import Mathlib.Data.List.Nodup

/-! Runs of a cache: which value a look-up finds, told by what was done with the cache. -/

namespace EntityRules

variable {κ ν : Type}

/-- What is done with a cache. -/
inductive CacheCall (κ ν : Type) where
  | set (key : κ) (value : ν)
  | get (key : κ)
  | invalidate (key : κ)
  | clear
  | size

/-- What came of a call. -/
inductive CacheEvent (κ ν : Type) where
  | stored (key : κ) (value : ν)
  /-- It could not be told how long a value stays. -/
  | refused
  | found (key : κ) (value : ν)
  | missed (key : κ)
  | invalidated (key : κ)
  | cleared
  | counted (size : Nat)

/-- What came of calls, each with its time, the first one first. -/
abbrev CacheHistory (κ ν : Type) := List (Float × CacheEvent κ ν)

namespace CacheEvent

/-- Whether an event puts an end to what was stored under a key before. -/
def Ends (k : κ) : CacheEvent κ ν → Prop
  | stored key _ | invalidated key => key = k
  | cleared => True
  | _ => False

/-- Whether a key is used in an event. -/
def Uses (k : κ) : CacheEvent κ ν → Prop
  | stored key _ | found key _ => key = k
  | _ => False

end CacheEvent

def CacheCall.isGet : CacheCall κ ν → Bool
  | get _ => true
  | _ => false

namespace CacheHistory

/-- A value was stored last under a key, at a time, and the key was not taken out since. -/
def LastStored (h : CacheHistory κ ν) (k : κ) (t : Float) (v : ν) : Prop :=
  ∃ before later, h = before ++ (t, .stored k v) :: later ∧ ∀ x ∈ later, ¬ x.2.Ends k

/-- A key was used more recently than another one. -/
def UsedAfter (h : CacheHistory κ ν) (k other : κ) : Prop :=
  ∃ before x later, h = before ++ x :: later ∧ x.2.Uses other ∧ ∀ y ∈ later, ¬ y.2.Uses k

/-- A time is before the end of what was stored at another time. There is no end without a lifetime,
and none that is reached where the sum is no number. -/
def InTime (ttl : Option (Extent Float)) (stored now : Float) : Prop :=
  ∀ d x, ttl = some d → d.scalar = .ok x → now < stored + x ∨ (stored + x).isNaN = true

/-- What was stored last under a key is still in time. -/
def Live (h : CacheHistory κ ν) (ttl : Option (Extent Float)) (k : κ) (now : Float) : Prop :=
  ∃ t v, h.LastStored k t v ∧ InTime ttl t now

/-- Since a key was stored last, something was stored under another one when at least so many other
keys, that one counted, were live and used more recently. -/
def Displaced (h : CacheHistory κ ν) (ttl : Option (Extent Float)) (room : Nat) (k : κ) : Prop :=
  ∃ before now key value later, h = before ++ (now, .stored key value) :: later ∧
    (∀ x ∈ (now, .stored key value) :: later, ¬ CacheEvent.Ends k x.2) ∧
    ∃ others : List κ, others.Nodup ∧ room ≤ others.length ∧ ∀ other ∈ others, other ≠ k ∧
      UsedAfter (before ++ [(now, .stored key value)]) k other ∧
      Live (before ++ [(now, .stored key value)]) ttl other now

variable {h : CacheHistory κ ν} {k other : κ} {t now : Float} {v : ν} {e : CacheEvent κ ν}

theorem LastStored.snoc (hl : h.LastStored k t v) (he : ¬ e.Ends k) (now : Float) :
    LastStored (h ++ [(now, e)]) k t v := by
  obtain ⟨before, later, rfl, kept⟩ := hl
  refine ⟨before, later ++ [(now, e)], by simp, ?_⟩
  intro x hx
  rcases List.mem_append.mp hx with hx | hx
  · exact kept x hx
  · rw [List.mem_singleton.mp hx]
    exact he

theorem lastStored_stored (h : CacheHistory κ ν) (k : κ) (v : ν) (now : Float) :
    LastStored (h ++ [(now, .stored k v)]) k now v :=
  ⟨h, [], rfl, nofun⟩

/-- What was stored last before one more event, if that event did not store it. -/
theorem LastStored.cases (hl : LastStored (h ++ [(now, e)]) k t v) :
    (e = .stored k v ∧ t = now) ∨ (¬ e.Ends k ∧ h.LastStored k t v) := by
  obtain ⟨before, later, whole, kept⟩ := hl
  rcases List.eq_nil_or_concat later with rfl | ⟨earlier, last, parts⟩
  · obtain ⟨-, same⟩ := List.append_inj' whole rfl
    cases same
    exact .inl ⟨rfl, rfl⟩
  · rw [List.concat_eq_append] at parts
    subst parts
    rw [← List.cons_append, ← List.append_assoc] at whole
    obtain ⟨rfl, same⟩ := List.append_inj' whole rfl
    cases same
    refine .inr ⟨kept (now, e) (by simp), before, earlier, rfl, ?_⟩
    intro x hx
    exact kept x (List.mem_append_left _ hx)

theorem UsedAfter.snoc (hu : h.UsedAfter k other) (he : ¬ e.Uses k) (now : Float) :
    UsedAfter (h ++ [(now, e)]) k other := by
  obtain ⟨before, x, later, rfl, used, unused⟩ := hu
  refine ⟨before, x, later ++ [(now, e)], by simp, used, ?_⟩
  intro y hy
  rcases List.mem_append.mp hy with hy | hy
  · exact unused y hy
  · rw [List.mem_singleton.mp hy]
    exact he

theorem usedAfter_of_uses (h : CacheHistory κ ν) (k : κ) (he : e.Uses other) (now : Float) :
    UsedAfter (h ++ [(now, e)]) k other :=
  ⟨h, (now, e), [], rfl, he, nofun⟩

theorem Displaced.snoc {ttl : Option (Extent Float)} {room : Nat} (hd : h.Displaced ttl room k)
    (he : ¬ e.Ends k) (now : Float) : Displaced (h ++ [(now, e)]) ttl room k := by
  obtain ⟨before, at', key, value, later, rfl, kept, others⟩ := hd
  refine ⟨before, at', key, value, later ++ [(now, e)], by simp, ?_, others⟩
  intro x hx
  rw [← List.cons_append] at hx
  rcases List.mem_append.mp hx with hx | hx
  · exact kept x hx
  · rw [List.mem_singleton.mp hx]
    exact he

end CacheHistory

namespace ResultCache

open CacheHistory

variable {start now later : Float} {room : Nat} {ttl : Option (Extent Float)}
  {h : CacheHistory κ ν} {c c' : ResultCache κ ν Float} {k : κ} {v : ν} {e : CacheEvent κ ν}

/-- An entry is over when its time is. -/
theorem isExpired_iff {x : CacheEntry κ ν Float} {t : Float} (made : c.expiry t = .ok x.expiry)
    (hn : now.isNaN = false) : x.isExpired now = true ↔ ¬ InTime c.ttl t now := by
  unfold expiry at made
  cases lifetime : c.ttl with
  | none =>
    rw [lifetime] at made
    have forever : x.expiry = none := (Except.ok.inj made).symm
    have stays : x.isExpired now = false := by rw [CacheEntry.isExpired, forever]
    rw [stays]
    exact iff_of_false Bool.false_ne_true (not_not_intro nofun)
  | some d =>
    rw [lifetime] at made
    obtain ⟨span, known, ends⟩ := map_eq_ok.mp made
    have past : x.isExpired now = decide (t + span ≤ now) := by
      rw [CacheEntry.isExpired, ← ends]
      rfl
    have inTime : InTime (some d) t now ↔ ¬ t + span ≤ now := by
      rw [Binary64.not_le_iff hn]
      constructor
      · intro soon
        exact soon d span rfl known
      · intro soon d' y same hy
        obtain rfl := Option.some.inj same
        obtain rfl := Except.ok.inj (known.symm.trans hy)
        exact soon
    rw [past, inTime, not_not, decide_eq_true_iff]

/-- What is over stays over. -/
theorem not_inTime_of_le {t : Float} (past : ¬ InTime ttl t now) (hle : now ≤ later) :
    ¬ InTime ttl t later := by
  obtain ⟨nn, nl⟩ := Binary64.isNaN_of_le hle
  simp only [InTime, not_forall] at past ⊢
  obtain ⟨d, x, lifetime, known, reached⟩ := past
  refine ⟨d, x, lifetime, known, ?_⟩
  rw [← Binary64.not_le_iff nn, not_not] at reached
  rw [← Binary64.not_le_iff nl, not_not]
  exact Binary64.le_trans_of_le reached hle

/-- What is over at the time when it is stored would be over too if it had been stored before. -/
theorem not_inTime_of_at_once {t : Float} (hs : start.isFinite = true) (started : start ≤ t)
    (hle : t ≤ now) (past : ¬ InTime ttl now now) : ¬ InTime ttl t now := by
  have nn := (Binary64.isNaN_of_le hle).2
  simp only [InTime, not_forall] at past ⊢
  obtain ⟨d, x, lifetime, known, reached⟩ := past
  refine ⟨d, x, lifetime, known, ?_⟩
  rw [← Binary64.not_le_iff nn, not_not] at reached ⊢
  exact Binary64.add_le_of_add_le_self hs started hle reached

theorem expiry_congr (same : c'.ttl = c.ttl) (t : Float) : c'.expiry t = c.expiry t := by
  rw [expiry, expiry, same]

/-- What holds of a cache after a history, up to a time. -/
structure Tracks (start : Float) (room : Nat) (ttl : Option (Extent Float))
    (h : CacheHistory κ ν) (c : ResultCache κ ν Float) (now : Float) : Prop where
  started : start ≤ now
  room_eq : c.room = room
  ttl_eq : c.ttl = ttl
  bounded : c.entries.length ≤ room
  distinct : (c.entries.map (·.key)).Nodup
  /-- Every entry is what was stored last under its key. -/
  current : ∀ x ∈ c.entries, ∃ t, h.LastStored x.key t x.value ∧ start ≤ t ∧ t ≤ now ∧
    c.expiry t = .ok x.expiry
  ordered : c.entries.Pairwise fun x y => h.UsedAfter x.key y.key
  /-- What was stored last under a key is held, or its time is over, or it had to make room. -/
  complete : ∀ k t v, h.LastStored k t v →
    (∃ x ∈ c.entries, x.key = k ∧ c.expiry t = .ok x.expiry) ∨
      ¬ InTime ttl t now ∨ h.Displaced ttl room k

/-- A call that stores nothing takes out what it ends and what is over. -/
theorem Tracks.taken (ht : Tracks start room ttl h c now) (hle : now ≤ later)
    (sub : c'.entries.Sublist c.entries) (sameRoom : c'.room = c.room) (sameTtl : c'.ttl = c.ttl)
    (nothing : ∀ k v, e ≠ .stored k v) (unused : ∀ x ∈ c'.entries, ¬ e.Uses x.key)
    (unended : ∀ x ∈ c'.entries, ¬ e.Ends x.key)
    (gone : ∀ x ∈ c.entries, x ∉ c'.entries → e.Ends x.key ∨ x.isExpired later = true) :
    Tracks start room ttl (h ++ [(later, e)]) c' later := by
  have nl := (Binary64.isNaN_of_le hle).2
  constructor
  · exact Binary64.le_trans_of_le ht.started hle
  · exact sameRoom.trans ht.room_eq
  · exact sameTtl.trans ht.ttl_eq
  · exact sub.length_le.trans ht.bounded
  · exact ht.distinct.sublist (sub.map _)
  · intro x hx
    obtain ⟨t, stored, after, before, made⟩ := ht.current x (sub.subset hx)
    exact ⟨t, stored.snoc (unended x hx) later, after, Binary64.le_trans_of_le before hle,
      (expiry_congr sameTtl t).trans made⟩
  · refine (ht.ordered.sublist sub).imp_of_mem ?_
    intro x y hx _ used
    exact used.snoc (unused x hx) later
  · intro k t v stored
    rcases stored.cases with ⟨rfl, -⟩ | ⟨kept, stored⟩
    · exact absurd rfl (nothing k v)
    · rcases ht.complete k t v stored with ⟨x, hx, rfl, made⟩ | past | displaced
      · by_cases stays : x ∈ c'.entries
        · exact .inl ⟨x, stays, rfl, (expiry_congr sameTtl t).trans made⟩
        · rcases gone x hx stays with ended | expired
          · exact absurd ended kept
          · refine .inr (.inl ?_)
            rw [← ht.ttl_eq, ← isExpired_iff made nl]
            exact expired
      · exact .inr (.inl (not_inTime_of_le past hle))
      · exact .inr (.inr (displaced.snoc kept later))

/-- Of the entries of other keys and the one that is used now, the latter was used last. -/
theorem Tracks.ordered_used {rest : List (CacheEntry κ ν Float)} {x : CacheEntry κ ν Float}
    (ht : Tracks start room ttl h c now) (sub : rest.Sublist c.entries)
    (others : ∀ y ∈ rest, y.key ≠ x.key) (uses : ∀ k, e.Uses k ↔ x.key = k) (later : Float) :
    (rest ++ [x]).Pairwise fun y z => UsedAfter (h ++ [(later, e)]) y.key z.key := by
  rw [List.pairwise_append]
  refine ⟨?_, List.pairwise_singleton _ _, ?_⟩
  · refine (ht.ordered.sublist sub).imp_of_mem ?_
    intro y z hy _ used
    refine used.snoc ?_ later
    rw [uses]
    exact (others y hy).symm
  · intro y _ z hz
    rw [List.mem_singleton.mp hz]
    exact usedAfter_of_uses h y.key ((uses _).mpr rfl) later

theorem Tracks.distinct_used {rest : List (CacheEntry κ ν Float)} {x : CacheEntry κ ν Float}
    (ht : Tracks start room ttl h c now) (sub : rest.Sublist c.entries)
    (others : ∀ y ∈ rest, y.key ≠ x.key) : ((rest ++ [x]).map (·.key)).Nodup := by
  rw [List.map_append, List.nodup_append]
  refine ⟨ht.distinct.sublist (sub.map _), by simp, ?_⟩
  intro key hkey other hother
  obtain ⟨y, hy, rfl⟩ := List.mem_map.mp hkey
  rw [List.map_singleton, List.mem_singleton] at hother
  rw [hother]
  exact others y hy

variable [DecidableEq κ]

/-- What comes of a call, and the cache after it. -/
def perform (c : ResultCache κ ν Float) (now : Float) :
    CacheCall κ ν → CacheEvent κ ν × ResultCache κ ν Float
  | .set key value =>
    match c.set key value now with
    | .ok c' => (.stored key value, c')
    | .error _ => (.refused, c)
  | .get key =>
    match c.get key now with
    | (some value, c') => (.found key value, c')
    | (none, c') => (.missed key, c')
  | .invalidate key => (.invalidated key, c.invalidate key)
  | .clear => (.cleared, c.clear)
  | .size => (.counted (c.size now), c.purge now)

/-- One more call after those that have a history. -/
def follow (run : CacheHistory κ ν × ResultCache κ ν Float) (call : Float × CacheCall κ ν) :
    CacheHistory κ ν × ResultCache κ ν Float :=
  let (event, after) := run.2.perform call.1 call.2
  (run.1 ++ [(call.1, event)], after)

/-- What came of calls, and the cache after them. -/
def run (c : ResultCache κ ν Float) (calls : List (Float × CacheCall κ ν)) :
    CacheHistory κ ν × ResultCache κ ν Float :=
  calls.foldl follow ([], c)

/-- A value that is found moves behind all others. -/
theorem Tracks.found {x : CacheEntry κ ν Float} (ht : Tracks start room ttl h c now)
    (hle : now ≤ later) (hx : c.find? k = some x) (entries : c'.entries =
      (c.invalidate k).entries ++ [x]) (sameRoom : c'.room = c.room) (sameTtl : c'.ttl = c.ttl) :
    Tracks start room ttl (h ++ [(later, .found k x.value)]) c' later := by
  obtain ⟨held, own⟩ := mem_of_find? hx
  have rest : ∀ y ∈ (c.invalidate k).entries, y ∈ c.entries ∧ y.key ≠ k := by
    intro y hy
    obtain ⟨hy, other⟩ := List.mem_filter.mp hy
    exact ⟨hy, by simpa using other⟩
  have old : ∀ y, y ∈ c'.entries ↔ y ∈ c.entries := by
    intro y
    rw [entries, List.mem_append, List.mem_singleton]
    constructor
    · rintro (hy | rfl)
      · exact (rest y hy).1
      · exact held
    · intro hy
      by_cases same : y.key = k
      · exact .inr (List.inj_on_of_nodup_map ht.distinct hy held (same.trans own.symm))
      · exact .inl (List.mem_filter.mpr ⟨hy, by simpa using same⟩)
  have others : ∀ y ∈ (c.invalidate k).entries, y.key ≠ x.key := fun y hy => own ▸ (rest y hy).2
  have fewer : (c.invalidate k).entries.length < c.entries.length :=
    List.length_filter_lt_length_iff_exists.mpr ⟨x, held, by simpa using own⟩
  constructor
  · exact Binary64.le_trans_of_le ht.started hle
  · exact sameRoom.trans ht.room_eq
  · exact sameTtl.trans ht.ttl_eq
  · rw [entries, List.length_append, List.length_singleton]
    exact fewer.trans_le ht.bounded
  · rw [entries]
    exact ht.distinct_used List.filter_sublist others
  · intro y hy
    obtain ⟨t, stored, after, before, made⟩ := ht.current y ((old y).mp hy)
    exact ⟨t, stored.snoc id later, after, Binary64.le_trans_of_le before hle,
      (expiry_congr sameTtl t).trans made⟩
  · rw [entries]
    exact ht.ordered_used List.filter_sublist others (fun _ => own ▸ Iff.rfl) later
  · intro k' t v' stored
    rcases stored.cases with ⟨other, -⟩ | ⟨-, stored⟩
    · cases other
    · rcases ht.complete k' t v' stored with ⟨y, hy, same, made⟩ | past | displaced
      · exact .inl ⟨y, (old y).mpr hy, same, (expiry_congr sameTtl t).trans made⟩
      · exact .inr (.inl (not_inTime_of_le past hle))
      · exact .inr (.inr (displaced.snoc id later))

/-- Of what is dropped, at most one thing, that one came first. -/
theorem eq_cons_of_dropped {α : Type} {l : List α} {a : α} {n : ℕ} (there : a ∈ l) (few : n ≤ 1)
    (gone : a ∉ l.drop n) : n = 1 ∧ l = a :: l.drop 1 := by
  cases l with
  | nil => cases there
  | cons b rest =>
    obtain rfl : n = 1 := by
      by_contra other
      obtain rfl : n = 0 := by omega
      exact gone there
    rcases List.mem_cons.mp there with rfl | later
    · exact ⟨rfl, rfl⟩
    · exact absurd later gone

/-- The entries that a value joins when it is stored: the live ones of other keys. -/
def joined (c : ResultCache κ ν Float) (k : κ) (now : Float) : List (CacheEntry κ ν Float) :=
  ((c.purge now).invalidate k).entries

theorem mem_joined {y : CacheEntry κ ν Float} :
    y ∈ c.joined k now ↔ y ∈ c.entries ∧ y.isExpired now = false ∧ y.key ≠ k := by
  simp only [joined, invalidate, purge, List.mem_filter, and_assoc, Bool.not_eq_true',
    decide_eq_true_eq, ne_eq]

theorem joined_sublist (c : ResultCache κ ν Float) (k : κ) (now : Float) :
    (c.joined k now).Sublist c.entries :=
  List.filter_sublist.trans List.filter_sublist

theorem entries_store (c : ResultCache κ ν Float) (k : κ) (v : ν) (x : Option Float)
    (now : Float) : (c.store k v x now).entries =
      List.drop ((c.joined k now).length + 1 - c.room) (c.joined k now ++ [⟨k, v, x⟩]) := by
  simp only [store, joined, List.length_append, List.length_singleton]

theorem Tracks.inTime_joined {y : CacheEntry κ ν Float} {t : Float}
    (ht : Tracks start room ttl h c now) (nl : later.isNaN = false) (hy : y ∈ c.joined k later)
    (span : c.expiry t = .ok y.expiry) : InTime ttl t later := by
  by_contra past
  rw [← ht.ttl_eq, ← isExpired_iff span nl, (mem_joined.mp hy).2.1] at past
  exact Bool.false_ne_true past

theorem Tracks.current_joined {x : Option Float} (ht : Tracks start room ttl h c now)
    (hle : now ≤ later) (made : c.expiry later = .ok x) :
    ∀ y ∈ c.joined k later ++ [⟨k, v, x⟩], ∃ t,
      LastStored (h ++ [(later, .stored k v)]) y.key t y.value ∧ start ≤ t ∧ t ≤ later ∧
        c.expiry t = .ok y.expiry := by
  have nl := (Binary64.isNaN_of_le hle).2
  have same : later ≤ later := (Binary64.le_iff_count nl nl).mpr le_rfl
  intro y hy
  rcases List.mem_append.mp hy with hy | hy
  · obtain ⟨hy, -, other⟩ := mem_joined.mp hy
    obtain ⟨t, stored, after, before, made⟩ := ht.current y hy
    have unended : ¬ CacheEvent.Ends y.key (.stored k v) := Ne.symm other
    exact ⟨t, stored.snoc unended later, after, Binary64.le_trans_of_le before hle, made⟩
  · rw [List.mem_singleton.mp hy]
    exact ⟨later, lastStored_stored h k v later, Binary64.le_trans_of_le ht.started hle, same,
      made⟩

/-- What is stored is live beside other live entries: it would be over at once only if they were
over too. -/
theorem Tracks.live_joined {x : Option Float} {y z : CacheEntry κ ν Float}
    (ht : Tracks start room ttl h c now) (hle : now ≤ later) (hs : start.isFinite = true)
    (made : c.expiry later = .ok x) (hy : y ∈ c.joined k later)
    (hz : z ∈ c.joined k later ++ [⟨k, v, x⟩]) :
    Live (h ++ [(later, .stored k v)]) ttl z.key later := by
  have nl := (Binary64.isNaN_of_le hle).2
  rcases List.mem_append.mp hz with there | there
  · obtain ⟨t, last, -, -, span⟩ := ht.current_joined hle made z hz
    exact ⟨t, z.value, last, ht.inTime_joined nl there span⟩
  · rw [List.mem_singleton.mp there]
    refine ⟨later, v, lastStored_stored h k v later, ?_⟩
    by_contra past
    obtain ⟨t, -, after, before, span⟩ :=
      ht.current_joined (v := v) hle made y (List.mem_append_left _ hy)
    exact not_inTime_of_at_once hs after before past (ht.inTime_joined nl hy span)

/-- An entry that has to make room leaves as many live ones as there is room for. -/
theorem Tracks.displaced_of_dropped {x : Option Float} {y : CacheEntry κ ν Float}
    (ht : Tracks start room ttl h c now) (hle : now ≤ later) (hs : start.isFinite = true)
    (made : c.expiry later = .ok x) (hy : y ∈ c.joined k later)
    (gone : y ∉ (c.store k v x later).entries) :
    Displaced (h ++ [(later, .stored k v)]) ttl room y.key := by
  have fewer : (c.joined k later).length ≤ room :=
    (joined_sublist c k later).length_le.trans ht.bounded
  have others : ∀ z ∈ c.joined k later, z.key ≠ k := fun z hz => (mem_joined.mp hz).2.2
  have distinct := ht.distinct_used (x := ⟨k, v, x⟩) (joined_sublist c k later) others
  have ordered := ht.ordered_used (e := .stored k v) (x := ⟨k, v, x⟩) (joined_sublist c k later)
    others (fun _ => Iff.rfl) later
  rw [entries_store, ht.room_eq] at gone
  obtain ⟨full, whole⟩ :=
    eq_cons_of_dropped (List.mem_append_left [⟨k, v, x⟩] hy) (by omega) gone
  have length := congrArg List.length whole
  rw [List.length_append, List.length_singleton, List.length_cons] at length
  rw [whole, List.map_cons, List.nodup_cons] at distinct
  rw [whole, List.pairwise_cons] at ordered
  refine ⟨h, later, k, v, [], rfl, ?_, _, distinct.2, ?_, ?_⟩
  · intro z hz
    rw [List.mem_singleton.mp hz]
    exact (others y hy).symm
  · rw [List.length_map]
    omega
  · intro key hkey
    obtain ⟨z, hz, rfl⟩ := List.mem_map.mp hkey
    exact ⟨fun same => distinct.1 (same ▸ List.mem_map_of_mem hz), ordered.1 z hz,
      ht.live_joined hle hs made hy (List.mem_of_mem_drop hz)⟩

theorem Tracks.complete_stored {x : Option Float} (ht : Tracks start room ttl h c now)
    (hle : now ≤ later) (some : 0 < room) (hs : start.isFinite = true)
    (made : c.expiry later = .ok x) {k' : κ} {t : Float} {v' : ν}
    (stored : LastStored (h ++ [(later, .stored k v)]) k' t v') :
    (∃ y ∈ (c.store k v x later).entries, y.key = k' ∧ c.expiry t = .ok y.expiry) ∨
      ¬ InTime ttl t later ∨ Displaced (h ++ [(later, .stored k v)]) ttl room k' := by
  have nl := (Binary64.isNaN_of_le hle).2
  have fewer : (c.joined k later).length ≤ room :=
    (joined_sublist c k later).length_le.trans ht.bounded
  rcases stored.cases with ⟨this, rfl⟩ | ⟨other, stored⟩
  · cases this
    refine .inl ⟨⟨k, v, x⟩, ?_, rfl, made⟩
    rw [entries_store, ht.room_eq, List.drop_append_of_le_length (by omega)]
    exact List.mem_append_right _ (List.mem_singleton_self _)
  · rcases ht.complete k' t v' stored with ⟨y, hy, rfl, span⟩ | past | displaced
    · cases expired : y.isExpired later with
      | true =>
        refine .inr (.inl ?_)
        rw [← ht.ttl_eq, ← isExpired_iff span nl]
        exact expired
      | false =>
        have there : y ∈ c.joined k later := mem_joined.mpr ⟨hy, expired, Ne.symm other⟩
        by_cases stays : y ∈ (c.store k v x later).entries
        · exact .inl ⟨y, stays, rfl, span⟩
        · exact .inr (.inr (ht.displaced_of_dropped hle hs made there stays))
    · exact .inr (.inl (not_inTime_of_le past hle))
    · exact .inr (.inr (displaced.snoc other later))

/-- A value that is stored comes behind all others. -/
theorem Tracks.stored {x : Option Float} (ht : Tracks start room ttl h c now) (hle : now ≤ later)
    (some : 0 < room) (hs : start.isFinite = true) (made : c.expiry later = .ok x) :
    Tracks start room ttl (h ++ [(later, .stored k v)]) (c.store k v x later) later := by
  have sub := joined_sublist c k later
  have others : ∀ y ∈ c.joined k later, y.key ≠ k := fun y hy => (mem_joined.mp hy).2.2
  have left : (c.store k v x later).entries.Sublist (c.joined k later ++ [⟨k, v, x⟩]) := by
    rw [entries_store]
    exact List.drop_sublist _ _
  have distinct := ht.distinct_used (x := ⟨k, v, x⟩) sub others
  have ordered := ht.ordered_used (e := .stored k v) (x := ⟨k, v, x⟩) sub others
    (fun _ => Iff.rfl) later
  constructor
  · exact Binary64.le_trans_of_le ht.started hle
  · exact ht.room_eq
  · exact ht.ttl_eq
  · exact ht.room_eq ▸ length_store_le c k v x later
  · exact distinct.sublist (left.map _)
  · exact fun y hy => ht.current_joined hle made y (left.subset hy)
  · exact ordered.sublist left
  · exact fun _ _ _ stored => ht.complete_stored hle some hs made stored

theorem perform_set_error {why : ExtentTrouble} (refused : c.set k v now = .error why) :
    c.perform now (.set k v) = (.refused, c) := by
  rw [perform, refused]

theorem perform_set_ok (stored : c.set k v now = .ok c') :
    c.perform now (.set k v) = (.stored k v, c') := by
  rw [perform, stored]

theorem perform_get_missing (missing : c.find? k = none) :
    c.perform now (.get k) = (.missed k, c.miss) := by
  rw [perform, get, missing]

theorem perform_get_expired {x : CacheEntry κ ν Float} (held : c.find? k = some x)
    (expired : x.isExpired now = true) :
    c.perform now (.get k) =
      (.missed k, { c with entries := (c.invalidate k).entries }.miss) := by
  rw [perform, get, held]
  dsimp only
  rw [expired]
  rfl

theorem perform_get_found {x : CacheEntry κ ν Float} (held : c.find? k = some x)
    (stays : x.isExpired now = false) :
    c.perform now (.get k) = (.found k x.value,
      { c with entries := (c.invalidate k).entries ++ [x], hits := c.hits + 1 }) := by
  rw [perform, get, held]
  dsimp only
  rw [stays]
  rfl

theorem Tracks.perform (ht : Tracks start room ttl h c now) (hle : now ≤ later) (some : 0 < room)
    (hs : start.isFinite = true) (call : CacheCall κ ν) :
    Tracks start room ttl (h ++ [(later, (c.perform later call).1)]) (c.perform later call).2
      later := by
  cases call with
  | set key value =>
    cases made : c.set key value later with
    | error why =>
      rw [perform_set_error made]
      exact ht.taken hle (.refl _) rfl rfl nofun (fun _ _ => id) (fun _ _ => id)
        fun x hx gone => absurd hx gone
    | ok c' =>
      rw [perform_set_ok made]
      obtain ⟨ends, span, rfl⟩ := map_eq_ok.mp made
      exact ht.stored hle some hs span
  | get key =>
    cases held : c.find? key with
    | none =>
      rw [perform_get_missing held]
      exact ht.taken hle (.refl _) rfl rfl nofun (fun _ _ => id) (fun _ _ => id)
        fun x hx gone => absurd hx gone
    | some x =>
      obtain ⟨there, own⟩ := mem_of_find? held
      cases expired : x.isExpired later with
      | false =>
        rw [perform_get_found held expired]
        exact ht.found hle held rfl rfl rfl
      | true =>
        rw [perform_get_expired held expired]
        refine ht.taken hle List.filter_sublist rfl rfl nofun (fun _ _ => id) (fun _ _ => id) ?_
        intro y hy gone
        have same : y.key = key := by
          by_contra other
          exact gone (List.mem_filter.mpr ⟨hy, by simpa using other⟩)
        have one := List.inj_on_of_nodup_map ht.distinct hy there (same.trans own.symm)
        exact .inr (one ▸ expired)
  | invalidate key =>
    refine ht.taken hle List.filter_sublist rfl rfl nofun (fun _ _ => id) ?_ ?_
    · intro x hx
      have other : x.key ≠ key := by simpa using (List.mem_filter.mp hx).2
      exact other.symm
    · intro x hx gone
      refine .inl ?_
      by_contra other
      exact gone (List.mem_filter.mpr ⟨hx, by simpa using Ne.symm other⟩)
  | clear =>
    exact ht.taken hle (List.nil_sublist _) rfl rfl nofun nofun nofun fun _ _ _ => .inl trivial
  | size =>
    refine ht.taken hle List.filter_sublist rfl rfl nofun (fun _ _ => id) (fun _ _ => id) ?_
    intro x hx gone
    refine .inr ?_
    by_contra stays
    exact gone (List.mem_filter.mpr ⟨hx, by simpa using stays⟩)

/-- What holds before calls holds after them if time does not go back. -/
theorem Tracks.run (some : 0 < room) (hs : start.isFinite = true)
    {calls : List (Float × CacheCall κ ν)} (ht : Tracks start room ttl h c now)
    (clock : (now :: calls.map (·.1)).IsChain (· ≤ ·)) :
    Tracks start room ttl (calls.foldl follow (h, c)).1 (calls.foldl follow (h, c)).2
      ((now :: calls.map (·.1)).getLast (List.cons_ne_nil _ _)) := by
  induction calls generalizing h c now with
  | nil => exact ht
  | cons call rest ih =>
    obtain ⟨first, clock⟩ := List.isChain_cons_cons.mp clock
    exact ih (ht.perform first some hs call.2) clock

/-- A value is found if it was stored last under its key, its time is not over, and it did not have
to make room; no other value is found. -/
theorem Tracks.get (ht : Tracks start room ttl h c now) (hle : now ≤ later) (k : κ) :
    (∀ v, (c.get k later).1 = some v → ∃ t, h.LastStored k t v ∧ InTime ttl t later) ∧
      ((c.get k later).1 = none → ∀ t v, h.LastStored k t v → InTime ttl t later →
        h.Displaced ttl room k) := by
  have nl := (Binary64.isNaN_of_le hle).2
  unfold ResultCache.get
  cases held : c.find? k with
  | none =>
    refine ⟨nofun, ?_⟩
    intro _ t v stored soon
    rcases ht.complete k t v stored with ⟨x, hx, own, -⟩ | past | displaced
    · exact absurd own (by simpa using List.find?_eq_none.mp held x hx)
    · exact absurd soon (not_inTime_of_le past hle)
    · exact displaced
  | some x =>
    obtain ⟨there, own⟩ := mem_of_find? held
    dsimp only
    cases expired : x.isExpired later with
    | false =>
      refine ⟨?_, nofun⟩
      rintro v same
      obtain rfl := Option.some.inj same
      obtain ⟨t, stored, -, -, span⟩ := ht.current x there
      refine ⟨t, own ▸ stored, ?_⟩
      by_contra past
      rw [← ht.ttl_eq, ← isExpired_iff span nl, expired] at past
      exact Bool.false_ne_true past
    | true =>
      refine ⟨nofun, ?_⟩
      intro _ t v stored soon
      rcases ht.complete k t v stored with ⟨y, hy, same, span⟩ | past | displaced
      · obtain rfl := List.inj_on_of_nodup_map ht.distinct hy there (same.trans own.symm)
        rw [isExpired_iff span nl, ht.ttl_eq] at expired
        exact absurd soon expired
      · exact absurd soon (not_inTime_of_le past hle)
      · exact displaced

theorem metrics_perform (c : ResultCache κ ν Float) (now : Float) (call : CacheCall κ ν) :
    (c.perform now call).2.hits + (c.perform now call).2.misses =
      c.hits + c.misses + if call.isGet then 1 else 0 := by
  cases call with
  | set key value =>
    cases made : c.set key value now with
    | error why =>
      rw [perform_set_error made]
      rfl
    | ok c' =>
      rw [perform_set_ok made]
      obtain ⟨ends, span, rfl⟩ := map_eq_ok.mp made
      rfl
  | get key =>
    cases held : c.find? key with
    | none =>
      rw [perform_get_missing held]
      rfl
    | some x =>
      cases expired : x.isExpired now with
      | false =>
        rw [perform_get_found held expired]
        exact Nat.add_right_comm ..
      | true =>
        rw [perform_get_expired held expired]
        rfl
  | invalidate key => rfl
  | clear => rfl
  | size => rfl

theorem metrics_run (h : CacheHistory κ ν) (c : ResultCache κ ν Float)
    (calls : List (Float × CacheCall κ ν)) :
    (calls.foldl follow (h, c)).2.hits + (calls.foldl follow (h, c)).2.misses =
      c.hits + c.misses + calls.countP (·.2.isGet) := by
  induction calls generalizing h c with
  | nil => rfl
  | cons call rest ih =>
    rw [List.foldl_cons, follow, ih, metrics_perform, List.countP_cons]
    dsimp only
    omega

omit [DecidableEq κ] in
theorem create_whole (name : String) {n : ℕ} (hn : 0 < n) (ttl : Option (Extent Float)) :
    (create name (.whole n) ttl : Except CapacityTrouble (ResultCache κ ν Float)) =
      .ok { name, capacity := .whole n, room := n, ttl } := by
  have positive : (Bound.ofInt n).isPositive = true := by simpa [Bound.ofInt, Bound.isPositive]
  simp [create, Extent.bound, Extent.bound?, positive]

omit [DecidableEq κ] in
/-- An empty cache tracks an empty history. -/
theorem tracks_of_empty (hs : start.isFinite = true) (empty : c.entries = [])
    (sameRoom : c.room = room) (sameTtl : c.ttl = ttl) : Tracks start room ttl [] c start := by
  have ns := Binary64.isNaN_of_isFinite hs
  constructor
  · exact (Binary64.le_iff_count ns ns).mpr le_rfl
  · exact sameRoom
  · exact sameTtl
  · rw [empty]
    exact Nat.zero_le _
  · rw [empty]
    exact List.nodup_nil
  · rw [empty]
    exact nofun
  · rw [empty]
    exact .nil
  · rintro k t v ⟨before, later, whole, -⟩
    cases before <;> cases whole

/-- A cache with room for some entries and any lifetime, on a clock that starts at a finite time and
never goes back. After any calls it holds no more entries than there is room for, under distinct
keys, and it counted every look-up once. What a look-up finds then was stored last under its key and
is still in time; what was stored last and is still in time is missed only if it had to make room
for as many other keys, live and used more recently. -/
theorem run_lru (name : String) {n : ℕ} (hn : 0 < n) (ttl : Option (Extent Float)) {start : Float}
    (hs : start.isFinite = true) :
    ∃ c : ResultCache κ ν Float, create name (.whole n) ttl = .ok c ∧
      ∀ calls : List (Float × CacheCall κ ν), (start :: calls.map (·.1)).IsChain (· ≤ ·) →
        (c.run calls).2.entries.length ≤ n ∧ ((c.run calls).2.entries.map (·.key)).Nodup ∧
        (c.run calls).2.hits + (c.run calls).2.misses = calls.countP (·.2.isGet) ∧
        ∀ now k, (start :: calls.map (·.1) ++ [now]).IsChain (· ≤ ·) →
          (∀ v, ((c.run calls).2.get k now).1 = some v →
            ∃ t, (c.run calls).1.LastStored k t v ∧ InTime ttl t now) ∧
          (((c.run calls).2.get k now).1 = none →
            ∀ t v, (c.run calls).1.LastStored k t v → InTime ttl t now →
              (c.run calls).1.Displaced ttl n k) := by
  let fresh : ResultCache κ ν Float := { name, capacity := .whole n, room := n, ttl }
  refine ⟨fresh, create_whole name hn ttl, ?_⟩
  intro calls clock
  have empty : Tracks start n ttl [] fresh start := tracks_of_empty hs rfl rfl rfl
  have tracks : Tracks start n ttl (fresh.run calls).1 (fresh.run calls).2 _ :=
    empty.run hn hs clock
  have counted := metrics_run [] fresh calls
  refine ⟨tracks.bounded, tracks.distinct, counted.trans (Nat.zero_add _), ?_⟩
  intro now k clock'
  obtain ⟨-, -, further⟩ := List.isChain_append.mp clock'
  exact tracks.get (further _ (List.getLast?_eq_getLast_of_ne_nil _) now rfl) k

namespace Sample

def cache : ResultCache String Nat Float :=
  { name := "results", capacity := .whole 2, room := 2, ttl := some (.whole 6) }

/-- Two keys are stored, the first one is looked up, and a third one comes when there is room for
two. -/
def calls : List (Float × CacheCall String Nat) :=
  [(1, .set "first" 1), (2, .set "second" 2), (3, .get "first"), (4, .set "third" 3)]

end Sample

/-- The key that was used least recently is missed though it is in time, since two others are live;
that of the other one is over when its time is. -/
theorem run_lru_displaced :
    create "results" (.whole 2) (some (.whole 6)) = .ok Sample.cache ∧
      ((Sample.cache.run Sample.calls).2.get "second" 6).1 = none ∧
      (Sample.cache.run Sample.calls).1.Displaced (some (.whole 6)) 2 "second" ∧
      ((Sample.cache.run Sample.calls).2.get "first" 6).1 = some 1 ∧
      ((Sample.cache.run Sample.calls).2.get "first" 7).1 = none := by
  have finite : (0 : Float).isFinite = true := by decide
  obtain ⟨c, made, runs⟩ := run_lru (κ := String) (ν := Nat) "results" (n := 2) (by decide)
    (some (.whole 6)) finite
  obtain rfl : Sample.cache = c := Except.ok.inj made
  have clock : ((0 : Float) :: Sample.calls.map (·.1)).IsChain (· ≤ ·) := by decide +kernel
  have clock' : ((0 : Float) :: Sample.calls.map (·.1) ++ [(6 : Float)]).IsChain (· ≤ ·) := by
    decide +kernel
  have missed : ((Sample.cache.run Sample.calls).2.get "second" 6).1 = none := by decide +kernel
  have history : (Sample.cache.run Sample.calls).1 = [(1, .stored "first" 1)] ++
      (2, .stored "second" 2) :: [(3, .found "first" 1), (4, .stored "third" 3)] := rfl
  have stored : (Sample.cache.run Sample.calls).1.LastStored "second" 2 2 :=
    ⟨_, _, history, by simp [CacheEvent.Ends]⟩
  refine ⟨rfl, missed, ?_, by decide +kernel, by decide +kernel⟩
  refine ((runs Sample.calls clock).2.2.2 6 "second" clock').2 missed 2 2 stored ?_
  intro d x same known
  obtain rfl := Option.some.inj same
  obtain rfl := Except.ok.inj known
  exact .inl (by decide +kernel)

end ResultCache

end EntityRules
