import InferenceGateway.Cache.Alike

/-! Saving the Tier-2 store and loading it into a fresh one. The snapshot keeps the entries, but
neither their order of use nor the nodes that have lost their entry. -/
namespace Gateway.Semantic
open Gateway.Providers Gateway.Embedding
open Binary64 (Value)

/-- A further call, as both stores get it: the clock and the key drawn are the same. -/
inductive Call where
  | get (q : Query) (now : Int)
  | set (q : Query) (resp : CanonicalResponse) (ttlOverride : Option Duration) (key : String)
      (now : Int)

/-- What is seen of a call: the answer, or which entries had to go. -/
inductive Seen where
  | answered (result : Except Panic (Option (CanonicalResponse × Value)))
  | evicted (keys : List String)
  deriving DecidableEq

def Seen.keys : Seen → List String
  | .answered _ => []
  | .evicted keys => keys

def Call.input (ranking : Ranking) (h : History) : Call → Input
  | .get q now => .get q now (ranking.search h.store q.vector)
  | .set q resp ttlOverride key now => .set q resp ttlOverride key now

namespace History

/-- The store of a Set before it evicts. -/
def pushed (h : History) (q : Query) (resp : CanonicalResponse) (ttlOverride : Option Duration)
    (key : String) (now : Int) : Store :=
  h.store.push key (Stored.entry ⟨key, q, resp, h.store.expiry ttlOverride now⟩)

def see (ranking : Ranking) (h : History) : Call → Seen
  | .get q now => .answered (h.store.get q now (ranking.search h.store q.vector)).1
  | .set q resp ttlOverride key now =>
      let pushed := h.pushed q resp ttlOverride key now
      .evicted (Store.evictions pushed.entries.keys.length pushed)

def act (ranking : Ranking) (h : History) (call : Call) : History := h.step (call.input ranking h)

def observe (ranking : Ranking) : History → List Call → List Seen
  | _, [] => []
  | h, call :: calls => h.see ranking call :: observe ranking (h.act ranking call) calls

/-- Every Set draws a new key. -/
def Follows (ranking : Ranking) : History → List Call → Prop
  | _, [] => True
  | h, call :: calls => h.Admits (call.input ranking h) ∧ Follows ranking (h.act ranking call) calls

/-- The candidates of a Get are not crowded. -/
def Clear (ranking : Ranking) (h : History) : Call → Prop
  | .get q _ => ranking.Uncrowded h.store q.vector
  | .set _ _ _ _ _ => True

def ClearAll (ranking : Ranking) : History → List Call → Prop
  | _, [] => True
  | h, call :: calls => h.Clear ranking call ∧ ClearAll ranking (h.act ranking call) calls

/-- The history after a snapshot and a restart with the same parameters. -/
def reloaded (h : History) (persisted : List Persisted) (now : Int) : History :=
  (h.step (.saveToDisk persisted)).step
    (.restart h.store.maxVectors h.store.threshold h.store.ttl now)

theorem Run.distinct {h : History} (run : Run h) : h.store.Distinct := by
  induction run with
  | start maxVectors threshold ttl => exact List.nodup_nil
  | @step h input run admitted ih =>
      cases input with
      | set q resp ttlOverride key now =>
          have new : key ∉ h.store.graph.map Node.key := by
            intro known
            obtain ⟨node, inGraph, rfl⟩ := List.mem_map.mp known
            obtain ⟨e, ⟨set, member, same, -⟩, -⟩ := run.traced.backed.nodes node inGraph
            exact admitted (List.mem_map.mpr ⟨set, member, same⟩)
          exact Store.evictAbove_keeps (P := Store.Distinct) (fun _ => Store.Distinct.evictOldest) _
            (ih.push new)
      | get q now proposed =>
          change Store.Distinct (h.store.get q now proposed).2
          rw [Store.Distinct, Store.get_graph]
          exact ih
      | saveToDisk persisted => exact ih
      | restart maxVectors threshold ttl now =>
          refine Store.Distinct.loadFromDisk List.nodup_nil run.traced.persistedUnique ?_
          exact fun pe listed => List.not_mem_nil

theorem Run.indexed {h : History} (run : Run h) : h.store.Indexed :=
  ⟨run.indexes, run.labelled, run.distinct⟩

theorem Run.follows {ranking : Ranking} {h : History} {calls : List Call} (run : Run h)
    (follows : h.Follows ranking calls) : Run (calls.foldl (History.act ranking) h) := by
  induction calls generalizing h with
  | nil => exact run
  | cons call calls ih => exact ih (run.step follows.1) follows.2

/-- Two histories that have drawn the same keys and whose stores are alike. -/
structure Twins (h k : History) : Prop where
  left : Run h
  right : Run k
  keys : h.sets.map Stored.key = k.sets.map Stored.key
  alike : h.store.Alike k.store

section Twins
variable {ranking : Ranking} {h k : History} {call : Call} {calls : List Call}

theorem Twins.admits (twins : Twins h k) (admitted : h.Admits (call.input ranking h)) :
    k.Admits (call.input ranking k) := by
  cases call with
  | get q now => exact trivial
  | set q resp ttlOverride key now =>
      change key ∉ k.sets.map Stored.key
      rw [← twins.keys]
      exact admitted

theorem pushed_expiry (alike : h.store.Alike k.store) {q : Query} {resp : CanonicalResponse}
    {ttlOverride : Option Duration} {key : String} {now : Int} :
    k.pushed q resp ttlOverride key now =
      k.store.push key (Stored.entry ⟨key, q, resp, h.store.expiry ttlOverride now⟩) := by
  rw [pushed, Store.expiry, Store.expiry, alike.ttl]

/-- One call, the candidates with an entry being the same. -/
theorem Twins.act (twins : Twins h k) (admitted : h.Admits (call.input ranking h))
    (same : ∀ q now, call = .get q now →
      (ranking.search h.store q.vector).filter h.store.live =
        (ranking.search k.store q.vector).filter k.store.live) :
    h.see ranking call = k.see ranking call ∧ Twins (h.act ranking call) (k.act ranking call) := by
  have left : Run (h.act ranking call) := twins.left.step admitted
  have right : Run (k.act ranking call) := twins.right.step (twins.admits admitted)
  cases call with
  | get q now =>
      have candidates := same q now rfl
      rw [← ranking.search_search h.store, ← ranking.search_search k.store] at candidates
      obtain ⟨result, store⟩ := twins.alike.get candidates
      exact ⟨congrArg Seen.answered result, left, right, twins.keys, store⟩
  | set q resp ttlOverride key now =>
      have pushed : (h.pushed q resp ttlOverride key now).Alike (k.pushed q resp ttlOverride key now) := by
        rw [pushed_expiry twins.alike]
        exact twins.alike.push key _
      have evicted := pushed.evictAbove (h.pushed q resp ttlOverride key now).entries.keys.length
      nth_rewrite 2 4 [pushed.keys.length_eq] at evicted
      exact ⟨congrArg Seen.evicted evicted.1, left, right, congrArg (key :: ·) twins.keys, evicted.2⟩

theorem Twins.act_clear (twins : Twins h k) (admitted : h.Admits (call.input ranking h))
    (first : h.Clear ranking call) (second : k.Clear ranking call) :
    h.see ranking call = k.see ranking call ∧ Twins (h.act ranking call) (k.act ranking call) := by
  refine twins.act admitted fun q now is => ?_
  subst is
  exact ranking.candidates_eq q.vector twins.alike twins.left.indexed twins.right.indexed first second

/-- Alike stores behave the same as long as nothing crowds the candidates. -/
theorem Twins.observe_eq (twins : Twins h k) (follows : h.Follows ranking calls)
    (first : h.ClearAll ranking calls) (second : k.ClearAll ranking calls) :
    h.observe ranking calls = k.observe ranking calls := by
  induction calls generalizing h k with
  | nil => rfl
  | cons call calls ih =>
      obtain ⟨same, next⟩ := twins.act_clear follows.1 first.1 second.1
      rw [observe, observe, same, ih next follows.2 first.2 second.2]

theorem Twins.act_mirrors (twins : Twins h k) (mirrors : h.store.Mirrors k.store)
    (admitted : h.Admits (call.input ranking h)) :
    h.see ranking call = k.see ranking call ∧ Twins (h.act ranking call) (k.act ranking call) ∧
      (h.act ranking call).store.Mirrors (k.act ranking call).store := by
  obtain ⟨seen, next⟩ := twins.act admitted fun q _ _ =>
    ranking.candidates_mirrored q.vector mirrors twins.left.distinct
  refine ⟨seen, next, next.alike, ?_⟩
  cases call with
  | get q now =>
      change (h.store.get _ _ _).2.graph.Perm (k.store.get _ _ _).2.graph
      rw [Store.get_graph, Store.get_graph]
      exact mirrors.graph
  | set q resp ttlOverride key now =>
      have pushed : (h.pushed q resp ttlOverride key now).Mirrors (k.pushed q resp ttlOverride key now) := by
        rw [pushed_expiry twins.alike]
        exact mirrors.push key _
      have evicted := pushed.evictAbove (h.pushed q resp ttlOverride key now).entries.keys.length
      nth_rewrite 2 [pushed.keys.length_eq] at evicted
      exact evicted.graph

/-- Mirrored stores behave the same. -/
theorem Twins.observe_eq_of_mirrors (twins : Twins h k) (mirrors : h.store.Mirrors k.store)
    (follows : h.Follows ranking calls) : h.observe ranking calls = k.observe ranking calls := by
  induction calls generalizing h k with
  | nil => rfl
  | cons call calls ih =>
      obtain ⟨same, next, mirrors'⟩ := twins.act_mirrors mirrors follows.1
      rw [observe, observe, same, ih next mirrors' follows.2]

end Twins

section Reloaded
variable {h : History} {persisted : List Persisted} {now : Int}

theorem reloaded_run (run : Run h) (snapshot : persisted.Perm h.store.saveToDisk) :
    Run (h.reloaded persisted now) := by
  have saved : Run (h.step (.saveToDisk persisted)) := run.step snapshot
  exact saved.step (show True from trivial)

theorem mem_snapshot (snapshot : persisted.Perm h.store.saveToDisk) {key : String} {e : Entry} :
    ⟨key, e⟩ ∈ persisted ↔ h.store.entries.lookup key = some e := by
  rw [snapshot.mem_iff, Store.saveToDisk, List.mem_map, ← Option.mem_def, AList.mem_lookup_iff]
  constructor
  · rintro ⟨listed, inMap, same⟩
    cases same
    exact inMap
  · exact fun inMap => ⟨_, inMap, rfl⟩

theorem unexpired_snapshot (snapshot : persisted.Perm h.store.saveToDisk)
    (unexpired : h.store.Unexpired now) : ∀ pe ∈ persisted, now ≤ pe.entry.expiresAt :=
  fun pe listed => unexpired pe.key pe.entry ((mem_snapshot snapshot).mp listed)

theorem snapshot_keys (snapshot : persisted.Perm h.store.saveToDisk) :
    (persisted.map Persisted.key).Perm h.store.entries.keys := by
  refine (snapshot.map Persisted.key).trans (List.Perm.of_eq ?_)
  simp [Store.saveToDisk, AList.keys, List.keys, Function.comp_def]

/-- With every entry unexpired, a restart turns the order of the snapshot around. -/
theorem reloaded_lru (snapshot : persisted.Perm h.store.saveToDisk) (unexpired : h.store.Unexpired now) :
    (h.reloaded persisted now).store.lru = (persisted.map Persisted.key).reverse :=
  (Store.loadFromDisk_lru (unexpired_snapshot snapshot unexpired)).trans (List.append_nil _)

theorem lookup_reloaded (snapshot : persisted.Perm h.store.saveToDisk)
    (unexpired : h.store.Unexpired now) (key : String) :
    (h.reloaded persisted now).store.entries.lookup key = h.store.entries.lookup key := by
  have nodup : (persisted.map Persisted.key).Nodup :=
    (snapshot_keys snapshot).nodup_iff.mpr h.store.entries.keys_nodup
  ext e
  refine (Store.lookup_loadFromDisk (unexpired_snapshot snapshot unexpired) nodup).trans ?_
  rw [mem_snapshot snapshot]
  exact or_iff_left fun fresh => Option.some_ne_none e fresh.2.symm

theorem reloaded_twins (run : Run h) (snapshot : persisted.Perm h.store.saveToDisk)
    (unexpired : h.store.Unexpired now)
    (order : persisted.map Persisted.key = h.store.lru.reverse) :
    Twins h (h.reloaded persisted now) := by
  obtain ⟨maxVectors, ttl, threshold⟩ := Store.loadFromDisk_parameters
    (newStore h.store.maxVectors h.store.threshold h.store.ttl) persisted now
  refine ⟨run, reloaded_run run snapshot, rfl, ?_, ?_, maxVectors.symm, ttl.symm, threshold.symm⟩
  · rw [reloaded_lru snapshot unexpired, order, List.reverse_reverse]
  · exact fun key => (lookup_reloaded snapshot unexpired key).symm

theorem reloaded_mirrors (run : Run h) (snapshot : persisted.Perm h.store.saveToDisk)
    (twins : Twins h (h.reloaded persisted now)) (whole : h.store.Whole) :
    h.store.Mirrors (h.reloaded persisted now).store := by
  have loaded : (h.reloaded persisted now).store.Whole := Store.Whole.loadFromDisk fun _ inGraph =>
    absurd inGraph List.not_mem_nil
  have nodes := twins.alike.live_perm run.indexed (reloaded_run run snapshot).indexed
  rw [whole.filter_live, loaded.filter_live] at nodes
  exact ⟨twins.alike, nodes⟩

end Reloaded

/-- Sets under the given keys, one after the other. -/
def arrivals (queries : String → Query) (keys : List String) : List Call :=
  keys.map fun key => .set (queries key) answer none key 0

section Arrivals
variable {ranking : Ranking} {h k : History} {queries : String → Query}
  {keys : List String}

theorem follows_arrivals (nodup : keys.Nodup) (new : ∀ key ∈ keys, key ∉ h.sets.map Stored.key) :
    h.Follows ranking (arrivals queries keys) := by
  induction keys generalizing h with
  | nil => exact trivial
  | cons key rest ih =>
      rw [List.nodup_cons] at nodup
      rw [List.forall_mem_cons] at new
      refine ⟨new.1, ih nodup.2 fun later listed known => ?_⟩
      rcases List.mem_cons.mp known with same | old
      · change later = key at same
        rw [same] at listed
        exact nodup.1 listed
      · exact new.2 later listed old

theorem clearAll_arrivals : h.ClearAll ranking (arrivals queries keys) := by
  induction keys generalizing h with
  | nil => exact trivial
  | cons key rest ih => exact ⟨trivial, ih⟩

/-- The store is a queue: what has left and what is still there, oldest first, is what was
there followed by what came. -/
theorem evicted_arrivals (ranking : Ranking) (h : History) (queries : String → Query)
    (keys : List String) :
    (h.observe ranking (arrivals queries keys)).flatMap Seen.keys ++
        ((arrivals queries keys).foldl (act ranking) h).store.lru.reverse =
      h.store.lru.reverse ++ keys := by
  induction keys generalizing h with
  | nil => exact (List.append_nil _).symm
  | cons key rest ih =>
      have first := Store.evictions_append (h.pushed (queries key) answer none key 0).entries.keys.length
        (h.pushed (queries key) answer none key 0)
      change _ ++ (act ranking h (.set (queries key) answer none key 0)).store.lru.reverse = _ at first
      have whole : (h.pushed (queries key) answer none key 0).lru.reverse = h.store.lru.reverse ++ [key] :=
        List.reverse_cons
      rw [arrivals, List.map_cons, observe, List.flatMap_cons, List.append_assoc, List.foldl_cons]
      refine (congrArg (Seen.keys _ ++ ·) (ih (act ranking h (.set (queries key) answer none key 0)))).trans ?_
      rw [← List.append_assoc]
      refine (congrArg (· ++ rest) (first.trans whole)).trans ?_
      rw [List.append_assoc, List.singleton_append]

theorem bounded_arrivals (run : Run h) (follows : h.Follows ranking (arrivals queries keys))
    (bounded : keys ≠ [] ∨ h.store.lru.length ≤ h.store.maxVectors) :
    ((arrivals queries keys).foldl (act ranking) h).store.lru.length ≤ h.store.maxVectors := by
  induction keys generalizing h with
  | nil => exact bounded.resolve_left (absurd rfl)
  | cons key rest ih =>
      have run' : Run (act ranking h (.set (queries key) answer none key 0)) := run.step follows.1
      have room : (act ranking h (.set (queries key) answer none key 0)).store.maxVectors = h.store.maxVectors :=
        Store.evictAbove_maxVectors _ _
      have few : (act ranking h (.set (queries key) answer none key 0)).store.lru.length ≤ h.store.maxVectors :=
        run'.traced.linked.length_eq.trans_le (run.set_bounded follows.1)
      rw [← room] at few ⊢
      exact ih run' follows.2 (.inr few)

/-- So as many Sets as the store has room for, and one more, drive out all there was. -/
theorem evicted_first (run : Run h) (follows : h.Follows ranking (arrivals queries keys))
    (enough : h.store.maxVectors < keys.length) :
    ((h.observe ranking (arrivals queries keys)).flatMap Seen.keys).take h.store.lru.length =
      h.store.lru.reverse := by
  have whole := evicted_arrivals ranking h queries keys
  have few := bounded_arrivals run follows (.inl (List.ne_nil_of_length_pos (by omega)))
  have lengths := congrArg List.length whole
  simp only [List.length_append, List.length_reverse] at lengths
  have long : h.store.lru.length ≤ ((h.observe ranking (arrivals queries keys)).flatMap Seen.keys).length := by
    omega
  have taken := congrArg (List.take h.store.lru.length) whole
  rw [List.take_append_of_le_length long] at taken
  rw [taken]
  exact List.take_left' (List.length_reverse)

/-- Stores of one size that behave the same under Sets have the same order of use. -/
theorem lru_of_observe (left : Run h) (right : Run k)
    (room : k.store.maxVectors = h.store.maxVectors) (size : k.store.lru.length = h.store.lru.length)
    (first : h.Follows ranking (arrivals queries keys)) (second : k.Follows ranking (arrivals queries keys))
    (enough : h.store.maxVectors < keys.length)
    (same : h.observe ranking (arrivals queries keys) = k.observe ranking (arrivals queries keys)) :
    h.store.lru = k.store.lru := by
  have front := evicted_first right second (room.trans_lt enough)
  rw [← same, size, evicted_first left first enough] at front
  exact List.reverse_injective front

theorem exists_new_keys (h : History) (n : Nat) :
    ∃ keys : List String, keys.length = n ∧ keys.Nodup ∧ ∀ key ∈ keys, key ∉ h.sets.map Stored.key := by
  obtain ⟨keys, new, size⟩ :=
    (List.finite_toSet (h.sets.map Stored.key)).infinite_compl.exists_subset_card_eq n
  refine ⟨keys.toList, keys.length_toList.trans size, keys.nodup_toList, ?_⟩
  exact fun key listed => new (Finset.mem_coe.mpr (Finset.mem_toList.mp listed))

end Arrivals

/-- A restart changes nothing that further calls can show exactly if the snapshot lists the
entries from the least to the most recently used, where no node has lost its entry or, failing
that, such nodes do not crowd the candidates of a Get. -/
theorem restart_behaves_same_iff (ranking : Ranking) {h : History} (run : Run h)
    {persisted : List Persisted} (snapshot : persisted.Perm h.store.saveToDisk) {now : Int}
    (unexpired : h.store.Unexpired now) :
    (∀ calls, h.Follows ranking calls →
        h.store.Whole ∨
          h.ClearAll ranking calls ∧ (h.reloaded persisted now).ClearAll ranking calls →
        h.observe ranking calls = (h.reloaded persisted now).observe ranking calls) ↔
      persisted.map Persisted.key = h.store.lru.reverse := by
  have loaded := reloaded_lru snapshot unexpired
  constructor
  · intro same
    obtain ⟨keys, length, nodup, new⟩ := exists_new_keys h (h.store.maxVectors + 1)
    have seen := same (arrivals (fun _ => {}) keys) (follows_arrivals nodup new)
      (.inr ⟨clearAll_arrivals, clearAll_arrivals⟩)
    have room : (h.reloaded persisted now).store.maxVectors = h.store.maxVectors :=
      (Store.loadFromDisk_parameters _ _ _).1
    have size : (h.reloaded persisted now).store.lru.length = h.store.lru.length := by
      rw [loaded, List.length_reverse, (snapshot_keys snapshot).length_eq, run.traced.linked.length_eq]
    have lru := lru_of_observe run (reloaded_run run snapshot) room size (follows_arrivals nodup new)
      (follows_arrivals nodup new) (by omega) seen
    rw [lru, loaded, List.reverse_reverse]
  · intro order calls follows clear
    have twins := reloaded_twins run snapshot unexpired order
    rcases clear with whole | ⟨first, second⟩
    · exact twins.observe_eq_of_mirrors (reloaded_mirrors run snapshot twins whole) follows
    · exact twins.observe_eq follows first second

def unit (x y : ℚ) : Query := { tenantID := "org", vector := [.finite x, .finite y] }

/-- A full store: "k1" was used before "k2". -/
def pair : History :=
  ((start 2 defaultThreshold 10).step (.set (unit 1 0) answer none "k1" 0)).step
    (.set (unit 0 1) answer none "k2" 1)

theorem pair_run : Run pair := by
  have first : Run ((start 2 defaultThreshold 10).step (.set (unit 1 0) answer none "k1" 0)) :=
    (Run.start _ _ _).step (show _ ∉ _ from List.not_mem_nil)
  exact first.step (show _ ∉ _ by decide)

theorem unexpired_of_saved {h : History} {now : Int}
    (listed : ∀ pe ∈ h.store.saveToDisk, now ≤ pe.entry.expiresAt) : h.store.Unexpired now :=
  fun key e known => listed ⟨key, e⟩ ((mem_snapshot (List.Perm.refl _)).mpr known)

theorem pair_unexpired : pair.store.Unexpired 2 := unexpired_of_saved (by decide)

theorem pair_whole : pair.store.Whole := by
  unfold Store.Whole
  decide

/-- Saved in the order of use, the pair comes back as it was. -/
theorem pair_behaves_same :
    pair.store.saveToDisk.reverse.map Persisted.key = ["k1", "k2"] ∧ pair.store.lru = ["k2", "k1"] ∧
      ∀ calls, pair.Follows nearestFirst calls →
        pair.observe nearestFirst calls =
          (pair.reloaded pair.store.saveToDisk.reverse 2).observe nearestFirst calls := by
  refine ⟨rfl, rfl, fun calls follows => ?_⟩
  exact (restart_behaves_same_iff nearestFirst pair_run (List.reverse_perm _) pair_unexpired).mpr rfl
    calls follows (.inl pair_whole)

/-- A Set that needs room, and a request for what "k1" answers. -/
def third : List Call := [.set (unit (3 / 5) (4 / 5)) answer none "k3" 2, .get (unit 1 0) 3]

theorem third_follows : pair.Follows nearestFirst third := by
  refine ⟨?_, trivial, trivial⟩
  change _ ∉ _
  decide

/-- Twenty entries, and twenty further away that took their place. -/
def replaced : History :=
  (arrivals (fun key => { tenantID := "org", vector := [.finite (if key ∈ twentyKeys then 1 else 1 / 2)] })
    (twentyKeys ++ twentyKeys.map (· ++ "2"))).foldl (act nearestFirst) (start 20 (.finite (1 / 4)) 10)

theorem replaced_run : Run replaced :=
  (Run.start _ _ _).follows (follows_arrivals (by decide) fun _ _ => List.not_mem_nil)

theorem replaced_unexpired : replaced.store.Unexpired 5 :=
  unexpired_of_saved (by decide +kernel)

/-- Saved in the other order, the pair loses "k2" where it would have lost "k1". And in the order
of use, entries that nodes without one had kept from being found are found. -/
theorem restart_shows :
    (Run pair ∧ pair.store.Unexpired 2 ∧ pair.Follows nearestFirst third ∧
      pair.observe nearestFirst third = [.evicted ["k1"], .answered (.ok none)] ∧
      (pair.reloaded pair.store.saveToDisk 2).observe nearestFirst third =
        [.evicted ["k2"], .answered (.ok (some (answer, .finite 1)))]) ∧
    Run replaced ∧ replaced.store.Unexpired 5 ∧
      replaced.store.saveToDisk.reverse.map Persisted.key = replaced.store.lru.reverse ∧
      replaced.observe nearestFirst [.get ownQuery 5] = [.answered (.ok none)] ∧
      (replaced.reloaded replaced.store.saveToDisk.reverse 5).observe nearestFirst [.get ownQuery 5] =
        [.answered (.ok (some (answer, .finite (1 / 2))))] := by
  refine ⟨⟨pair_run, pair_unexpired, third_follows, by decide +kernel, by decide +kernel⟩, replaced_run,
    replaced_unexpired, by decide +kernel, by decide +kernel, by decide +kernel⟩

end History

end Gateway.Semantic
