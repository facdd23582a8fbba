import InferenceGateway.Arith.Ieee
import InferenceGateway.ElementList.Basic
import InferenceGateway.Providers.Types

/-! The Tier-2 store of package semantic. Every method runs under the store's mutex and is
one function here; the clock readings, the fresh key and what the graph's search proposes
are arguments. The graph is the list of the nodes added to it. -/
namespace Gateway.Embedding
open Binary64 (Value)

/-- A slice of float32 values. -/
abbrev Vector := List Value

inductive Panic where
  | indexOutOfRange
  deriving DecidableEq

/-- The loop of CosineSimilarity, which indexes `b` by the positions of `a`. -/
def accumulate (sum : Value) : Vector → Vector → Except Panic Value
  | [], _ => .ok sum
  | _ :: _, [] => .error .indexOutOfRange
  | x :: a, y :: b => accumulate (Ieee.binary32.add sum (Ieee.binary32.mul x y)) a b

def cosineSimilarity (a b : Vector) : Except Panic Value := accumulate (.finite 0) a b

end Gateway.Embedding

namespace Gateway.Semantic
open Gateway.Providers Gateway.Embedding
open Binary64 (Value)

structure Query where
  tenantID : String := ""
  model : String := ""
  toolsCanonical : String := ""
  responseFormatCanonical : String := ""
  vector : Vector := []
  deriving DecidableEq

structure Entry where
  response : CanonicalResponse
  tenantID : String
  model : String
  toolsCanonical : String
  responseFormatCanonical : String
  vector : Vector
  expiresAt : Int
  deriving DecidableEq

structure Node where
  key : String
  value : Vector
  deriving DecidableEq

/-- The front of `lru` is the most recently used key. -/
structure Store where
  graph : List Node
  entries : AList fun _ : String => Entry
  lru : List String
  maxVectors : Nat
  ttl : Duration
  threshold : Value

def newStore (maxVectors : Nat) (threshold : Value) (ttl : Duration) : Store :=
  { graph := [], entries := ∅, lru := [], maxVectors, ttl, threshold }

structure Found where
  key : String
  response : CanonicalResponse
  sim : Value

namespace Store

/-- Graph.Search is free in what it returns and in which order, among the nodes there are. -/
def search (s : Store) (proposed : List Node) : List Node :=
  proposed.filter fun node => node ∈ s.graph

/-- The loop of Get over the candidates. -/
def scan (s : Store) (q : Query) (now : Int) : List Node → Except Panic (Option Found)
  | [] => .ok none
  | node :: rest =>
      match s.entries.lookup node.key with
      | none => s.scan q now rest
      | some e =>
          match cosineSimilarity q.vector node.value with
          | .error panic => .error panic
          | .ok sim =>
              if sim.lt s.threshold then .ok none
              else if e.expiresAt < now then s.scan q now rest
              else if e.tenantID ≠ q.tenantID ∨ e.model ≠ q.model ∨
                  e.toolsCanonical ≠ q.toolsCanonical ∨
                  e.responseFormatCanonical ≠ q.responseFormatCanonical then s.scan q now rest
              else .ok (some ⟨node.key, e.response, sim⟩)

def moveToFront (s : Store) (key : String) : Store := { s with lru := key :: s.lru.erase key }

def get (s : Store) (q : Query) (now : Int) (proposed : List Node) :
    Except Panic (Option (CanonicalResponse × Value)) × Store :=
  if s.entries.keys.length = 0 then (.ok none, s)
  else
    match s.scan q now (s.search proposed) with
    | .error panic => (.error panic, s)
    | .ok none => (.ok none, s)
    | .ok (some found) => (.ok (some (found.response, found.sim)), s.moveToFront found.key)

/-- How many nodes of the graph have lost their entry. -/
def orphans (s : Store) : Int := s.graph.length - s.entries.keys.length

def rebuildGraphIfNeeded (s : Store) : Store :=
  if s.orphans ≤ s.maxVectors then s
  else { s with graph := s.entries.entries.map fun e => ⟨e.1, e.2.vector⟩ }

def evictOldest (s : Store) : Store :=
  match s.lru.getLast? with
  | none => s
  | some key =>
      rebuildGraphIfNeeded { s with lru := s.lru.dropLast, entries := s.entries.erase key }

/-- The loop at the end of Set, for at most `fuel` rounds. -/
def evictAbove : Nat → Store → Store
  | 0, s => s
  | fuel + 1, s =>
      if s.maxVectors < s.entries.keys.length then evictAbove fuel s.evictOldest else s

/-- What Set and LoadFromDisk do to make an entry known. -/
def push (s : Store) (key : String) (e : Entry) : Store :=
  { s with
    lru := key :: s.lru
    entries := s.entries.insert key e
    graph := s.graph ++ [⟨key, e.vector⟩] }

def expiry (s : Store) (ttlOverride : Option Duration) (now : Int) : Int :=
  now + (ttlOverride.getD s.ttl).toInt

def set (s : Store) (q : Query) (resp : CanonicalResponse) (ttlOverride : Option Duration)
    (key : String) (now : Int) : Store :=
  let e : Entry :=
    { response := resp, tenantID := q.tenantID, model := q.model
      toolsCanonical := q.toolsCanonical, responseFormatCanonical := q.responseFormatCanonical
      vector := q.vector, expiresAt := s.expiry ttlOverride now }
  let pushed := s.push key e
  evictAbove pushed.entries.keys.length pushed

end Store

/-- persistedEntry. -/
structure Persisted where
  key : String
  entry : Entry

/-- One order in which SaveToDisk may write the entries; the map is ranged over. -/
def Store.saveToDisk (s : Store) : List Persisted := s.entries.entries.map fun e => ⟨e.1, e.2⟩

def Store.load (s : Store) (now : Int) (pe : Persisted) : Store :=
  if pe.entry.expiresAt < now then s else s.push pe.key pe.entry

def Store.loadFromDisk (s : Store) (persisted : List Persisted) (now : Int) : Store :=
  persisted.foldl (fun s pe => s.load now pe) s

namespace Store

theorem scan_found {s : Store} {q : Query} {now : Int} {nodes : List Node} {found : Found}
    (run : s.scan q now nodes = .ok (some found)) :
    ∃ node ∈ nodes, ∃ e, s.entries.lookup node.key = some e ∧ found.key = node.key ∧
      found.response = e.response ∧ cosineSimilarity q.vector node.value = .ok found.sim ∧
      found.sim.lt s.threshold = false ∧ now ≤ e.expiresAt ∧ e.tenantID = q.tenantID ∧
      e.model = q.model ∧ e.toolsCanonical = q.toolsCanonical ∧
      e.responseFormatCanonical = q.responseFormatCanonical := by
  induction nodes with
  | nil => cases run
  | cons node rest ih =>
      have later (found_later : s.scan q now rest = .ok (some found)) :=
        (ih found_later).imp fun _ => And.imp_left (List.mem_cons_of_mem node)
      unfold scan at run
      cases known : s.entries.lookup node.key with
      | none => exact later (by simpa only [known] using run)
      | some e =>
          cases similar : cosineSimilarity q.vector node.value with
          | error panic => simp [known, similar] at run
          | ok sim =>
              simp only [known, similar] at run
              split_ifs at run with below expired differs
              · cases run
              · exact later run
              · exact later run
              · cases run
                push Not at differs expired
                obtain ⟨tenant, model, tools, format⟩ := differs
                exact ⟨node, List.mem_cons_self, e, known, rfl, rfl, similar, by simpa using below,
                  expired, tenant, model, tools, format⟩

theorem scan_cons_found {s : Store} {q : Query} {now : Int} {node : Node} {rest : List Node}
    {e : Entry} {sim : Value} (known : s.entries.lookup node.key = some e)
    (similar : cosineSimilarity q.vector node.value = .ok sim)
    (notBelow : sim.lt s.threshold = false) (live : now ≤ e.expiresAt)
    (tenantID : e.tenantID = q.tenantID) (model : e.model = q.model)
    (tools : e.toolsCanonical = q.toolsCanonical)
    (format : e.responseFormatCanonical = q.responseFormatCanonical) :
    s.scan q now (node :: rest) = .ok (some ⟨node.key, e.response, sim⟩) := by
  simp [scan, known, similar, notBelow, not_lt.mpr live, tenantID, model, tools, format]

theorem get_hit {s : Store} {q : Query} {now : Int} {proposed : List Node}
    {resp : CanonicalResponse} {sim : Value}
    (hit : (s.get q now proposed).1 = .ok (some (resp, sim))) :
    ∃ found, s.scan q now (s.search proposed) = .ok (some found) ∧ found.response = resp ∧
      found.sim = sim := by
  unfold get at hit
  split_ifs at hit with empty
  · cases hit
  · cases scanned : s.scan q now (s.search proposed) with
    | error panic => simp [scanned] at hit
    | ok result =>
        cases result with
        | none => simp [scanned] at hit
        | some found =>
            simp only [scanned, Except.ok.injEq, Option.some.injEq, Prod.mk.injEq] at hit
            exact ⟨found, rfl, hit⟩

/-- Get changes nothing but the order of use. -/
theorem get_cases (s : Store) (q : Query) (now : Int) (proposed : List Node) :
    (s.get q now proposed).2 = s ∨
      ∃ key ∈ s.entries, (s.get q now proposed).2 = s.moveToFront key := by
  unfold get
  split
  · exact .inl rfl
  · split
    · exact .inl rfl
    · exact .inl rfl
    · rename_i found scanned
      obtain ⟨node, -, e, known, same, -⟩ := scan_found scanned
      refine .inr ⟨found.key, ?_, rfl⟩
      rw [same, ← AList.lookup_isSome, known]
      rfl

theorem get_kept (s : Store) (q : Query) (now : Int) (proposed : List Node) :
    (s.get q now proposed).2.entries = s.entries ∧
      (s.get q now proposed).2.threshold = s.threshold := by
  rcases s.get_cases q now proposed with same | ⟨key, -, touched⟩
  · rw [same]
    exact ⟨rfl, rfl⟩
  · rw [touched]
    exact ⟨rfl, rfl⟩

@[simp] theorem rebuildGraphIfNeeded_entries (s : Store) :
    s.rebuildGraphIfNeeded.entries = s.entries := by
  unfold rebuildGraphIfNeeded
  split <;> rfl

@[simp] theorem rebuildGraphIfNeeded_lru (s : Store) : s.rebuildGraphIfNeeded.lru = s.lru := by
  unfold rebuildGraphIfNeeded
  split <;> rfl

@[simp] theorem rebuildGraphIfNeeded_maxVectors (s : Store) :
    s.rebuildGraphIfNeeded.maxVectors = s.maxVectors := by
  unfold rebuildGraphIfNeeded
  split <;> rfl

@[simp] theorem mem_push {s : Store} {key other : String} {e : Entry} :
    other ∈ (s.push key e).entries ↔ other = key ∨ other ∈ s.entries :=
  AList.mem_insert s.entries

/-- Eviction only forgets. -/
theorem lookup_of_evictOldest {s : Store} {key : String} {e : Entry}
    (known : s.evictOldest.entries.lookup key = some e) : s.entries.lookup key = some e := by
  unfold evictOldest at known
  split at known
  · exact known
  · rename_i oldest _
    rw [rebuildGraphIfNeeded_entries] at known
    have other : key ≠ oldest := by
      rintro rfl
      simp at known
    rwa [AList.lookup_erase_ne other] at known

/-- What every eviction keeps, the loop keeps. -/
theorem evictAbove_keeps {P : Store → Prop} (each : ∀ s, P s → P s.evictOldest) (fuel : Nat)
    {s : Store} (h : P s) : P (evictAbove fuel s) := by
  induction fuel generalizing s with
  | zero => exact h
  | succ fuel ih =>
      unfold evictAbove
      split
      · exact ih (each s h)
      · exact h

theorem lookup_of_evictAbove {fuel : Nat} {s : Store} {key : String} {e : Entry}
    (known : (evictAbove fuel s).entries.lookup key = some e) : s.entries.lookup key = some e :=
  evictAbove_keeps (P := fun t => t.entries.lookup key = some e → s.entries.lookup key = some e)
    (fun _ kept later => kept (lookup_of_evictOldest later)) fuel id known

theorem mem_of_mem_evictAbove (fuel : Nat) {s : Store} {key : String}
    (member : key ∈ (evictAbove fuel s).entries) : key ∈ s.entries := by
  obtain ⟨e, known⟩ := Option.isSome_iff_exists.mp (AList.lookup_isSome.mpr member)
  rw [← AList.lookup_isSome, lookup_of_evictAbove known]
  rfl

theorem loadFromDisk_cons (s : Store) (pe : Persisted) (rest : List Persisted) (now : Int) :
    s.loadFromDisk (pe :: rest) now = (s.load now pe).loadFromDisk rest now := rfl

theorem mem_of_mem_loadFromDisk {persisted : List Persisted} {s : Store} {now : Int}
    {key : String} (member : key ∈ (s.loadFromDisk persisted now).entries) :
    key ∈ s.entries ∨ ∃ pe ∈ persisted, pe.key = key := by
  induction persisted generalizing s with
  | nil => exact .inl member
  | cons pe rest ih =>
      rw [loadFromDisk_cons] at member
      rcases ih member with before | ⟨later, listed, same⟩
      · unfold load at before
        split at before
        · exact .inl before
        · rcases mem_push.mp before with rfl | old
          · exact .inr ⟨pe, List.mem_cons_self, rfl⟩
          · exact .inl old
      · exact .inr ⟨later, List.mem_cons_of_mem pe listed, same⟩

/-- The list of use holds the keys of the map, each once. -/
def Linked (s : Store) : Prop := s.lru.Perm s.entries.keys

theorem Linked.nodup {s : Store} (linked : s.Linked) : s.lru.Nodup :=
  linked.nodup_iff.mpr s.entries.keys_nodup

theorem Linked.moveToFront {s : Store} {key : String} (linked : s.Linked)
    (known : key ∈ s.entries) : (s.moveToFront key).Linked :=
  (List.perm_cons_erase (linked.mem_iff.mpr (AList.mem_keys.mp known))).symm.trans linked

theorem Linked.push {s : Store} {key : String} {e : Entry} (linked : s.Linked)
    (new : key ∉ s.entries) : (s.push key e).Linked := by
  unfold Linked Store.push
  rw [AList.keys_insert, List.erase_of_not_mem (fun known => new (AList.mem_keys.mpr known))]
  exact linked.cons key

theorem Linked.evictOldest {s : Store} (linked : s.Linked) : s.evictOldest.Linked := by
  unfold Store.evictOldest
  split
  · exact linked
  · rename_i key last
    unfold Linked
    rw [rebuildGraphIfNeeded_lru, rebuildGraphIfNeeded_entries, AList.keys_erase]
    rw [← ElementList.erase_last linked.nodup last]
    exact linked.erase key

theorem Linked.evictOldest_shrinks {s : Store} (linked : s.Linked)
    (some_entry : 0 < s.entries.keys.length) :
    s.evictOldest.entries.keys.length + 1 = s.entries.keys.length := by
  have used : s.lru ≠ [] := List.length_pos_iff.mp (linked.length_eq ▸ some_entry)
  obtain ⟨key, last⟩ := Option.ne_none_iff_exists'.mp (mt List.getLast?_eq_none_iff.mp used)
  have known : key ∈ s.entries.keys := linked.mem_iff.mp (List.mem_of_getLast? last)
  have length := List.length_erase_of_mem known
  simp only [Store.evictOldest, last, rebuildGraphIfNeeded_entries, AList.keys_erase]
  omega

@[simp] theorem evictOldest_maxVectors (s : Store) : s.evictOldest.maxVectors = s.maxVectors := by
  unfold evictOldest
  split
  · rfl
  · exact rebuildGraphIfNeeded_maxVectors _

theorem Linked.evictAbove {fuel : Nat} {s : Store} (linked : s.Linked) :
    (evictAbove fuel s).Linked :=
  evictAbove_keeps (P := Linked) (fun _ => Linked.evictOldest) fuel linked

@[simp] theorem evictOldest_threshold (s : Store) : s.evictOldest.threshold = s.threshold := by
  unfold evictOldest rebuildGraphIfNeeded
  split
  · rfl
  · split <;> rfl

@[simp] theorem set_threshold (s : Store) (q : Query) (resp : CanonicalResponse)
    (ttlOverride : Option Duration) (key : String) (now : Int) :
    (s.set q resp ttlOverride key now).threshold = s.threshold :=
  evictAbove_keeps (P := fun t => t.threshold = s.threshold)
    (fun t same => (evictOldest_threshold t).trans same) _ rfl

@[simp] theorem set_ttl (s : Store) (q : Query) (resp : CanonicalResponse)
    (ttlOverride : Option Duration) (key : String) (now : Int) :
    (s.set q resp ttlOverride key now).ttl = s.ttl := by
  refine evictAbove_keeps (P := fun t => t.ttl = s.ttl) ?_ _ rfl
  intro t same
  refine Eq.trans ?_ same
  unfold evictOldest rebuildGraphIfNeeded
  split
  · rfl
  · split <;> rfl

/-- The rounds Set allows its loop are enough for the loop to end by its own guard. -/
theorem Linked.evictAbove_length {fuel : Nat} {s : Store} (linked : s.Linked)
    (enough : s.entries.keys.length ≤ s.maxVectors + fuel) :
    (Store.evictAbove fuel s).entries.keys.length ≤ s.maxVectors := by
  induction fuel generalizing s with
  | zero => exact enough
  | succ fuel ih =>
      unfold Store.evictAbove
      split
      · have shrunk := linked.evictOldest_shrinks (by omega)
        have bounded := ih linked.evictOldest (by rw [evictOldest_maxVectors]; omega)
        rwa [evictOldest_maxVectors] at bounded
      · omega

theorem Linked.set {s : Store} {q : Query} {resp : CanonicalResponse}
    {ttlOverride : Option Duration} {key : String} {now : Int} (linked : s.Linked)
    (new : key ∉ s.entries) :
    (s.set q resp ttlOverride key now).Linked ∧
      (s.set q resp ttlOverride key now).entries.keys.length ≤ s.maxVectors :=
  ⟨(linked.push new).evictAbove, (linked.push new).evictAbove_length (Nat.le_add_left _ _)⟩

theorem Linked.loadFromDisk {persisted : List Persisted} {s : Store} {now : Int}
    (linked : s.Linked) (nodup : (persisted.map Persisted.key).Nodup)
    (new : ∀ pe ∈ persisted, pe.key ∉ s.entries) :
    (s.loadFromDisk persisted now).Linked := by
  induction persisted generalizing s with
  | nil => exact linked
  | cons pe rest ih =>
      rw [List.map_cons, List.nodup_cons] at nodup
      rw [List.forall_mem_cons] at new
      rw [loadFromDisk_cons]
      unfold load
      split
      · exact ih linked nodup.2 new.2
      · refine ih (linked.push new.1) nodup.2 fun later listed known => ?_
        rcases mem_push.mp known with same | old
        · exact nodup.1 (List.mem_map.mpr ⟨later, listed, same⟩)
        · exact new.2 later listed old

end Store

end Gateway.Semantic
