import InferenceGateway.Cache.Semantic

/-! The Tier-2 store as an LRU cache. The list of package container/list is kept with the
identity of its elements and each entry with its element; forgetting both gives the store
of keys. -/
namespace Gateway.Semantic
open Gateway.Providers Gateway.Embedding ElementList
open Binary64 (Value)

namespace Store
variable {s : Store} {key : String} {e : Entry}

theorem evictOldest_lru (s : Store) : s.evictOldest.lru = s.lru.dropLast := by
  unfold evictOldest
  split
  · rename_i empty
    rw [List.getLast?_eq_none_iff.mp empty]
    rfl
  · rw [rebuildGraphIfNeeded_lru]

/-- The loop of Set keeps the most recently used keys. -/
theorem Linked.evictAbove_lru {fuel : Nat} {s : Store} (linked : s.Linked)
    (enough : s.entries.keys.length ≤ s.maxVectors + fuel) :
    (Store.evictAbove fuel s).lru = s.lru.take s.maxVectors := by
  have length := linked.length_eq
  induction fuel generalizing s with
  | zero =>
      change s.lru = _
      exact (List.take_of_length_le (by omega)).symm
  | succ fuel ih =>
      unfold Store.evictAbove
      split
      · have shrunk := linked.evictOldest_shrinks (by omega)
        have kept := ih linked.evictOldest (by rw [evictOldest_maxVectors]; omega)
          linked.evictOldest.length_eq
        rw [kept, evictOldest_maxVectors, evictOldest_lru, List.dropLast_eq_take, List.take_take,
          min_eq_left (by omega)]
      · exact (List.take_of_length_le (by omega)).symm

/-- The graph holds the vector of every entry under its key. -/
def Indexes (s : Store) : Prop :=
  ∀ key e, s.entries.lookup key = some e → (⟨key, e.vector⟩ : Node) ∈ s.graph

theorem Indexes.push (h : s.Indexes) : (s.push key e).Indexes := by
  intro other found known
  by_cases same : other = key
  · subst same
    rw [Store.push, AList.lookup_insert, Option.some.injEq] at known
    exact List.mem_append_right _ (known ▸ List.mem_singleton_self _)
  · rw [Store.push, AList.lookup_insert_ne same] at known
    exact List.mem_append_left _ (h other found known)

theorem Indexes.rebuildGraphIfNeeded (h : s.Indexes) : s.rebuildGraphIfNeeded.Indexes := by
  unfold Store.rebuildGraphIfNeeded
  split
  · exact h
  · intro key e known
    exact List.mem_map.mpr ⟨⟨key, e⟩, AList.mem_lookup_iff.mp known, rfl⟩

theorem Indexes.evictOldest (h : s.Indexes) : s.evictOldest.Indexes := by
  unfold Store.evictOldest
  split
  · exact h
  · rename_i key _
    refine Indexes.rebuildGraphIfNeeded ?_
    intro other e known
    have kept : other ≠ key := by
      rintro rfl
      simp at known
    rw [AList.lookup_erase_ne kept] at known
    exact h other e known

theorem Indexes.evictAbove {fuel : Nat} {s : Store} (h : s.Indexes) :
    (Store.evictAbove fuel s).Indexes :=
  evictAbove_keeps (P := Indexes) (fun _ => Indexes.evictOldest) fuel h

theorem Indexes.load (h : s.Indexes) (now : Int) (pe : Persisted) : (s.load now pe).Indexes := by
  unfold Store.load
  split
  · exact h
  · exact h.push

/-- At most as many nodes have lost their entry as the store may hold. -/
def Pruned (s : Store) : Prop := s.orphans ≤ s.maxVectors

theorem Pruned.push (h : s.Pruned) (new : key ∉ s.entries) : (s.push key e).Pruned := by
  have fresh : key ∉ s.entries.keys := fun known => new (AList.mem_keys.mpr known)
  unfold Pruned orphans at *
  simp only [Store.push, AList.keys_insert, List.erase_of_not_mem fresh, List.length_append,
    List.length_cons, List.length_nil]
  push_cast
  omega

theorem rebuildGraphIfNeeded_pruned (s : Store) : s.rebuildGraphIfNeeded.Pruned := by
  unfold rebuildGraphIfNeeded
  split
  · assumption
  · simp [Pruned, orphans, AList.keys, List.keys]

theorem Pruned.evictOldest (h : s.Pruned) : s.evictOldest.Pruned := by
  unfold Store.evictOldest
  split
  · exact h
  · exact rebuildGraphIfNeeded_pruned _

theorem Pruned.evictAbove {fuel : Nat} {s : Store} (h : s.Pruned) :
    (Store.evictAbove fuel s).Pruned :=
  evictAbove_keeps (P := Pruned) (fun _ => Pruned.evictOldest) fuel h

@[simp] theorem evictAbove_maxVectors (fuel : Nat) (s : Store) :
    (evictAbove fuel s).maxVectors = s.maxVectors :=
  evictAbove_keeps (P := fun t => t.maxVectors = s.maxVectors)
    (fun t same => (evictOldest_maxVectors t).trans same) fuel rfl

end Store

/-- The store with its list as container/list has it. `lruElem` gives that field of the
entry under a key. -/
structure PointerStore where
  graph : List Node
  entries : AList fun _ : String => Entry
  lruElem : String → Option (Element String)
  lru : Seq String
  maxVectors : Nat
  ttl : Duration
  threshold : Value

namespace PointerStore

/-- The store of keys. -/
def view (s : PointerStore) : Store :=
  ⟨s.graph, s.entries, s.lru.values, s.maxVectors, s.ttl, s.threshold⟩

def newStore (maxVectors : Nat) (threshold : Value) (ttl : Duration) : PointerStore :=
  { graph := [], entries := ∅, lruElem := fun _ => none, lru := .new, maxVectors, ttl, threshold }

def moveToFront (s : PointerStore) (key : String) : PointerStore :=
  match s.lruElem key with
  | some elem => { s with lru := s.lru.moveToFront elem }
  | none => s

/-- The candidate Get settles on. -/
def hit (s : PointerStore) (q : Query) (now : Int) (proposed : List Node) :
    Except Panic (Option Found) :=
  if s.entries.keys.length = 0 then .ok none else s.view.scan q now (s.view.search proposed)

def get (s : PointerStore) (q : Query) (now : Int) (proposed : List Node) :
    Except Panic (Option (CanonicalResponse × Value)) × PointerStore :=
  match s.hit q now proposed with
  | .error panic => (.error panic, s)
  | .ok none => (.ok none, s)
  | .ok (some found) => (.ok (some (found.response, found.sim)), s.moveToFront found.key)

def rebuildGraphIfNeeded (s : PointerStore) : PointerStore :=
  { s with graph := s.view.rebuildGraphIfNeeded.graph }

def evictOldest (s : PointerStore) : PointerStore :=
  match s.lru.back with
  | none => s
  | some oldest =>
      rebuildGraphIfNeeded
        { s with
          lru := s.lru.remove oldest
          entries := s.entries.erase oldest.value
          lruElem := Function.update s.lruElem oldest.value none }

def evictAbove : Nat → PointerStore → PointerStore
  | 0, s => s
  | fuel + 1, s =>
      if s.maxVectors < s.entries.keys.length then evictAbove fuel s.evictOldest else s

def push (s : PointerStore) (key : String) (e : Entry) : PointerStore :=
  let (elem, lru) := s.lru.pushFront key
  { s with
    lru
    lruElem := Function.update s.lruElem key (some elem)
    entries := s.entries.insert key e
    graph := s.graph ++ [⟨key, e.vector⟩] }

def set (s : PointerStore) (q : Query) (resp : CanonicalResponse)
    (ttlOverride : Option Duration) (key : String) (now : Int) : PointerStore :=
  let e : Entry :=
    { response := resp, tenantID := q.tenantID, model := q.model
      toolsCanonical := q.toolsCanonical, responseFormatCanonical := q.responseFormatCanonical
      vector := q.vector, expiresAt := s.view.expiry ttlOverride now }
  let pushed := s.push key e
  evictAbove pushed.entries.keys.length pushed

def load (s : PointerStore) (now : Int) (pe : Persisted) : PointerStore :=
  if pe.entry.expiresAt < now then s else s.push pe.key pe.entry

def loadFromDisk (s : PointerStore) (persisted : List Persisted) (now : Int) : PointerStore :=
  persisted.foldl (fun s pe => s.load now pe) s

/-- The list holds the keys of the map, each once, every entry has its own element, and the
graph has its vector. -/
structure Consistent (s : PointerStore) : Prop where
  linked : s.view.Linked
  own : ∀ key ∈ s.entries, ∃ elem ∈ s.lru.elements, s.lruElem key = some elem ∧ elem.value = key
  indexes : s.view.Indexes

variable {s : PointerStore} {key : String} {e : Entry}

@[simp] theorem view_push : (s.push key e).view = s.view.push key e := rfl

@[simp] theorem view_rebuildGraphIfNeeded :
    s.rebuildGraphIfNeeded.view = s.view.rebuildGraphIfNeeded := by
  unfold rebuildGraphIfNeeded Store.rebuildGraphIfNeeded
  split <;> rfl

@[simp] theorem view_evictOldest : s.evictOldest.view = s.view.evictOldest := by
  unfold evictOldest Store.evictOldest
  have value := s.lru.back_value
  cases last : s.lru.back with
  | none =>
      rw [last, Option.map_none] at value
      simp only [show s.view.lru.getLast? = none from value.symm]
  | some oldest =>
      rw [last, Option.map_some] at value
      simp only [show s.view.lru.getLast? = some oldest.value from value.symm,
        view_rebuildGraphIfNeeded]
      congr 1
      simp only [view, Seq.values_remove_back last]

theorem view_evictAbove (fuel : Nat) (s : PointerStore) :
    (evictAbove fuel s).view = Store.evictAbove fuel s.view := by
  induction fuel generalizing s with
  | zero => rfl
  | succ fuel ih =>
      unfold evictAbove Store.evictAbove
      change (if s.maxVectors < s.entries.keys.length then evictAbove fuel s.evictOldest else s).view
        = if s.maxVectors < s.entries.keys.length then _ else _
      split
      · rw [ih, view_evictOldest]
      · rfl

/-- Forgetting the elements turns Set into Set. -/
theorem view_set {q : Query} {resp : CanonicalResponse} {ttlOverride : Option Duration}
    {now : Int} : (s.set q resp ttlOverride key now).view = s.view.set q resp ttlOverride key now :=
  view_evictAbove _ _

theorem view_load (now : Int) (pe : Persisted) : (s.load now pe).view = s.view.load now pe := by
  unfold load Store.load
  split <;> rfl

theorem view_moveToFront (h : s.Consistent) (known : key ∈ s.entries) :
    (s.moveToFront key).view = s.view.moveToFront key := by
  obtain ⟨elem, member, own, rfl⟩ := h.own key known
  simp only [moveToFront, own, view, Store.moveToFront,
    Seq.values_moveToFront member h.linked.nodup, touch]

theorem mem_of_hit {q : Query} {now : Int} {proposed : List Node} {found : Found}
    (h : s.hit q now proposed = .ok (some found)) : found.key ∈ s.entries := by
  unfold hit at h
  split at h
  · cases h
  · obtain ⟨node, -, e, known, same, -⟩ := Store.scan_found h
    rw [same, ← AList.lookup_isSome]
    exact Option.isSome_iff_exists.mpr ⟨e, known⟩

/-- Forgetting the elements turns Get into Get. -/
theorem view_get (h : s.Consistent) (q : Query) (now : Int) (proposed : List Node) :
    (s.get q now proposed).1 = (s.view.get q now proposed).1 ∧
      (s.get q now proposed).2.view = (s.view.get q now proposed).2 := by
  unfold get Store.get
  by_cases empty : s.entries.keys.length = 0
  · simp [hit, empty, view]
  · have searched : s.hit q now proposed = s.view.scan q now (s.view.search proposed) := if_neg empty
    rw [if_neg (show ¬ s.view.entries.keys.length = 0 from empty), ← searched]
    cases scanned : s.hit q now proposed with
    | error panic => exact ⟨rfl, rfl⟩
    | ok result =>
        cases result with
        | none => exact ⟨rfl, rfl⟩
        | some found => exact ⟨rfl, view_moveToFront h (mem_of_hit scanned)⟩

theorem Consistent.push (h : s.Consistent) (new : key ∉ s.entries) : (s.push key e).Consistent where
  linked := Store.Linked.push h.linked new
  own := by
    intro other known
    by_cases same : other = key
    · subst same
      exact ⟨_, List.mem_cons_self, Function.update_self _ _ _, rfl⟩
    · have old : other ∈ s.entries := ((AList.mem_insert _).mp known).resolve_left same
      obtain ⟨elem, member, own, value⟩ := h.own other old
      exact ⟨elem, List.mem_cons_of_mem _ member, (Function.update_of_ne same _ _).trans own, value⟩
  indexes := Store.Indexes.push h.indexes

theorem Consistent.moveToFront (h : s.Consistent) (known : key ∈ s.entries) :
    (s.moveToFront key).Consistent := by
  have same := view_moveToFront h known
  obtain ⟨elem, member, own, -⟩ := h.own key known
  have moved : s.moveToFront key = { s with lru := s.lru.moveToFront elem } := by
    simp only [PointerStore.moveToFront, own]
  refine ⟨same ▸ h.linked.moveToFront known, ?_, ?_⟩
  · rw [moved]
    intro other listed
    obtain ⟨elem, member, own, value⟩ := h.own other listed
    exact ⟨elem, Seq.mem_moveToFront.mpr member, own, value⟩
  · rw [same]
    exact h.indexes

theorem Consistent.evictOldest (h : s.Consistent) : s.evictOldest.Consistent := by
  refine ⟨by rw [view_evictOldest]; exact h.linked.evictOldest, ?_,
    by rw [view_evictOldest]; exact h.indexes.evictOldest⟩
  unfold PointerStore.evictOldest
  split
  · exact h.own
  · rename_i oldest last
    intro key known
    obtain ⟨apart, listed⟩ := AList.mem_erase.mp known
    obtain ⟨elem, member, own, rfl⟩ := h.own key listed
    refine ⟨elem, Seq.mem_remove.mpr ⟨?_, member⟩, (Function.update_of_ne apart _ _).trans own, rfl⟩
    rintro rfl
    exact apart rfl

theorem Consistent.evictAbove {fuel : Nat} {s : PointerStore} (h : s.Consistent) :
    (evictAbove fuel s).Consistent := by
  induction fuel generalizing s with
  | zero => exact h
  | succ fuel ih =>
      unfold PointerStore.evictAbove
      split
      · exact ih h.evictOldest
      · exact h

theorem Consistent.get (h : s.Consistent) (q : Query) (now : Int) (proposed : List Node) :
    (s.get q now proposed).2.Consistent := by
  unfold PointerStore.get
  split
  · exact h
  · exact h
  · rename_i found scanned
    exact h.moveToFront (mem_of_hit scanned)

/-- The loaded keys, most recent first. -/
def loadedKeys (persisted : List Persisted) (now : Int) : List String :=
  ((persisted.filter fun pe => ¬ pe.entry.expiresAt < now).map Persisted.key).reverse

/-- The keys in the order of their last use: by Set, by LoadFromDisk or as a hit. -/
def used (s : PointerStore) (q : Query) (now : Int) (proposed : List Node) (uses : List String) :
    List String :=
  match s.hit q now proposed with
  | .ok (some found) => touch found.key uses
  | _ => uses

/-- A store and the keys used so far, most recent first. A process starts with a new store,
into which it may load a snapshot; uuid.NewString never repeats a key. -/
inductive Usage : PointerStore → List String → Prop
  | new (maxVectors : Nat) (threshold : Value) (ttl : Duration) :
      Usage (newStore maxVectors threshold ttl) []
  | loaded (maxVectors : Nat) (threshold : Value) (ttl : Duration) {persisted : List Persisted}
      (now : Int) : (persisted.map Persisted.key).Nodup →
      Usage ((newStore maxVectors threshold ttl).loadFromDisk persisted now)
        (loadedKeys persisted now)
  | get {s : PointerStore} {uses : List String} (q : Query) (now : Int) (proposed : List Node) :
      Usage s uses → Usage (s.get q now proposed).2 (s.used q now proposed uses)
  | set {s : PointerStore} {uses : List String} (q : Query) (resp : CanonicalResponse)
      (ttlOverride : Option Duration) {key : String} (now : Int) : Usage s uses → key ∉ uses →
      Usage (s.set q resp ttlOverride key now) (key :: uses)

/-- The list is the order of use, or what of it the store may hold. -/
structure Recent (s : PointerStore) (uses : List String) : Prop where
  consistent : s.Consistent
  pruned : s.view.Pruned
  nodup : uses.Nodup
  order : s.lru.values = uses ∨ s.lru.values = uses.take s.maxVectors

variable {uses : List String}

theorem Recent.subset (h : s.Recent uses) : s.lru.values ⊆ uses := by
  rcases h.order with same | recent
  · rw [same]
    exact List.Subset.refl _
  · rw [recent]
    exact List.take_subset _ _

theorem Recent.mem_uses (h : s.Recent uses) (known : key ∈ s.entries) : key ∈ uses :=
  h.subset (h.consistent.linked.mem_iff.mpr (AList.mem_keys.mp known))

theorem newStore_recent (maxVectors : Nat) (threshold : Value) (ttl : Duration) :
    (newStore maxVectors threshold ttl).Recent [] where
  consistent := ⟨List.Perm.refl [], nofun, nofun⟩
  pruned := Int.natCast_nonneg _
  nodup := List.nodup_nil
  order := .inl rfl

theorem Recent.push (h : s.Recent uses) (all : s.lru.values = uses) (new : key ∉ uses) :
    (s.push key e).Recent (key :: uses) := by
  have fresh : key ∉ s.entries := fun known => new (h.mem_uses known)
  exact ⟨h.consistent.push fresh, Store.Pruned.push h.pruned fresh, List.nodup_cons.mpr ⟨new, h.nodup⟩,
    .inl (congrArg (key :: ·) all)⟩

theorem loadedKeys_cons (pe : Persisted) (rest : List Persisted) (now : Int) :
    loadedKeys (pe :: rest) now =
      loadedKeys rest now ++ if pe.entry.expiresAt < now then [] else [pe.key] := by
  unfold loadedKeys
  by_cases expired : pe.entry.expiresAt < now
  · rw [List.filter_cons_of_neg (by simpa using expired), if_pos expired, List.append_nil]
  · rw [List.filter_cons_of_pos (by simpa using expired), if_neg expired, List.map_cons,
      List.reverse_cons]

/-- Loading pushes the snapshot's entries one after the other. -/
theorem Recent.loadFromDisk {persisted : List Persisted} {s : PointerStore} {uses : List String}
    {now : Int} (h : s.Recent uses) (all : s.lru.values = uses)
    (nodup : (persisted.map Persisted.key).Nodup) (new : ∀ pe ∈ persisted, pe.key ∉ uses) :
    (s.loadFromDisk persisted now).Recent (loadedKeys persisted now ++ uses) ∧
      (s.loadFromDisk persisted now).lru.values = loadedKeys persisted now ++ uses := by
  induction persisted generalizing s uses with
  | nil => exact ⟨h, all⟩
  | cons pe rest ih =>
      rw [List.map_cons, List.nodup_cons] at nodup
      rw [List.forall_mem_cons] at new
      change (PointerStore.loadFromDisk (s.load now pe) rest now).Recent _ ∧
        (PointerStore.loadFromDisk (s.load now pe) rest now).lru.values = _
      rw [loadedKeys_cons, List.append_assoc]
      unfold PointerStore.load
      split
      · exact ih h all nodup.2 new.2
      · refine ih (h.push all new.1) (congrArg (pe.key :: ·) all) nodup.2 ?_
        intro later listed known
        rcases List.mem_cons.mp known with same | old
        · exact nodup.1 (List.mem_map.mpr ⟨later, listed, same⟩)
        · exact new.2 later listed old

theorem Recent.get (h : s.Recent uses) (q : Query) (now : Int) (proposed : List Node) :
    (s.get q now proposed).2.Recent (s.used q now proposed uses) := by
  have consistent := h.consistent.get q now proposed
  unfold PointerStore.get used at *
  cases scanned : s.hit q now proposed with
  | error panic => exact h
  | ok result =>
      cases result with
      | none => exact h
      | some found =>
          simp only [scanned] at consistent ⊢
          have known := mem_of_hit scanned
          have same := view_moveToFront h.consistent known
          have moved : (s.moveToFront found.key).lru.values = touch found.key s.lru.values :=
            congrArg Store.lru same
          have bound : (s.moveToFront found.key).maxVectors = s.maxVectors :=
            congrArg Store.maxVectors same
          have listed : found.key ∈ s.lru.values :=
            h.consistent.linked.mem_iff.mpr (AList.mem_keys.mp known)
          refine ⟨consistent, same ▸ h.pruned, touch_nodup h.nodup, ?_⟩
          rcases h.order with all | recent
          · exact .inl (by rw [moved, all])
          · rw [recent] at listed
            exact .inr (by rw [moved, recent, bound, touch_take listed])

/-- Set leaves the store's share of the most recently used keys. -/
theorem Recent.set (h : s.Recent uses) (q : Query) (resp : CanonicalResponse)
    (ttlOverride : Option Duration) (new : key ∉ uses) (now : Int) :
    (s.set q resp ttlOverride key now).Recent (key :: uses) ∧
      (s.set q resp ttlOverride key now).lru.values = (key :: uses).take s.maxVectors ∧
      (s.set q resp ttlOverride key now).maxVectors = s.maxVectors ∧
      (s.set q resp ttlOverride key now).entries.keys.length ≤ s.maxVectors := by
  have fresh : key ∉ s.entries := fun known => new (h.mem_uses known)
  let e : Entry :=
    { response := resp, tenantID := q.tenantID, model := q.model
      toolsCanonical := q.toolsCanonical, responseFormatCanonical := q.responseFormatCanonical
      vector := q.vector, expiresAt := s.view.expiry ttlOverride now }
  have consistent : (s.push key e).Consistent := h.consistent.push fresh
  have pruned : (s.push key e).view.Pruned := Store.Pruned.push h.pruned fresh
  have same : (s.set q resp ttlOverride key now).view =
      Store.evictAbove (s.push key e).entries.keys.length (s.push key e).view := view_evictAbove _ _
  have bound : (s.set q resp ttlOverride key now).maxVectors = s.maxVectors :=
    (congrArg Store.maxVectors same).trans (Store.evictAbove_maxVectors _ _)
  have recent : (s.set q resp ttlOverride key now).lru.values = (key :: uses).take s.maxVectors := by
    have kept := (congrArg Store.lru same).trans
      (consistent.linked.evictAbove_lru (Nat.le_add_left _ _))
    change _ = (key :: s.lru.values).take s.maxVectors at kept
    refine kept.trans ?_
    rcases h.order with all | recent
    · rw [all]
    · rw [recent]
      cases s.maxVectors with
      | zero => rfl
      | succ n => rw [List.take_succ_cons, List.take_succ_cons, List.take_take, min_eq_left (by omega)]
  refine ⟨⟨consistent.evictAbove, same ▸ pruned.evictAbove, List.nodup_cons.mpr ⟨new, h.nodup⟩,
    .inr (by rw [recent, bound])⟩, recent, bound, ?_⟩
  exact (congrArg (fun s => s.entries.keys.length) same).trans_le
    (consistent.linked.evictAbove_length (Nat.le_add_left _ _))

theorem Usage.recent (h : Usage s uses) : s.Recent uses := by
  induction h with
  | new maxVectors threshold ttl => exact newStore_recent maxVectors threshold ttl
  | @loaded maxVectors threshold ttl persisted now nodup =>
      have loaded : ((newStore maxVectors threshold ttl).loadFromDisk persisted now).Recent
          (loadedKeys persisted now ++ []) :=
        ((newStore_recent maxVectors threshold ttl).loadFromDisk rfl nodup
          fun _ _ => List.not_mem_nil).1
      rwa [List.append_nil] at loaded
  | get q now proposed _ ih => exact ih.get q now proposed
  | set q resp ttlOverride now _ new ih => exact (ih.set q resp ttlOverride new now).1

/-- Along every run the structures agree; Set leaves exactly the most recently used entries
the store may hold, and at most twice as many nodes. -/
theorem lru_with_bounded_garbage (run : Usage s uses) :
    s.Consistent ∧ ∀ q resp ttlOverride key now, key ∉ uses →
      (s.set q resp ttlOverride key now).Consistent ∧
      (s.set q resp ttlOverride key now).lru.values = (key :: uses).take s.maxVectors ∧
      (s.set q resp ttlOverride key now).entries.keys.Perm ((key :: uses).take s.maxVectors) ∧
      (s.set q resp ttlOverride key now).graph.length ≤ 2 * s.maxVectors := by
  refine ⟨run.recent.consistent, ?_⟩
  intro q resp ttlOverride key now new
  obtain ⟨recent, order, bound, few⟩ := run.recent.set q resp ttlOverride new now
  refine ⟨recent.consistent, order, ?_, ?_⟩
  · rw [← order]
    exact recent.consistent.linked.symm
  · have pruned := recent.pruned
    simp only [Store.Pruned, Store.orphans, view, bound] at pruned
    omega

def axis (model : String) (vector : Vector) : Query := { tenantID := "org", model, vector }

def reply (id : String) : CanonicalResponse := ⟨id, "chat.completion", 0, "gpt", [], ⟨1, 1, 2⟩⟩

/-- A store for two after two Sets. -/
def filledStore : PointerStore :=
  ((newStore 2 (.finite 1) 10).set (axis "a" [.finite 1, .finite 0]) (reply "a") none "k1" 0).set
    (axis "b" [.finite 0, .finite 1]) (reply "b") none "k2" 1

theorem filledStore_usage : Usage filledStore ["k2", "k1"] :=
  ((Usage.new 2 (.finite 1) 10).set _ _ none 0 List.not_mem_nil).set _ _ none 1 (by decide)

/-- A hit on the older of two entries makes the next Set evict the other one. -/
theorem touched_entry_survives :
    let touched := (filledStore.get (axis "a" [.finite 1, .finite 0]) 2
      [⟨"k1", [.finite 1, .finite 0]⟩]).2
    Usage touched ["k1", "k2"] ∧
      (touched.set (axis "c" [.finite 1, .finite 1]) (reply "c") none "k3" 3).lru.values =
        ["k3", "k1"] := by
  intro touched
  have order : filledStore.used (axis "a" [.finite 1, .finite 0]) 2
      [⟨"k1", [.finite 1, .finite 0]⟩] ["k2", "k1"] = ["k1", "k2"] := by decide +kernel
  have usage : Usage touched ["k1", "k2"] := order ▸ filledStore_usage.get _ _ _
  have bound : touched.maxVectors = 2 := by decide +kernel
  have kept := ((lru_with_bounded_garbage usage).2 (axis "c" [.finite 1, .finite 1]) (reply "c")
    none "k3" 3 (by decide)).2.1
  rw [bound] at kept
  exact ⟨usage, kept⟩

end PointerStore
end Gateway.Semantic
