import InferenceGateway.Auth.Resolver
import InferenceGateway.Interaction.Pool

/-! Revocation under concurrency. Any number of Resolve runs and revoke requests share one
cache and one table of keys; every operation on either is atomic and succeeds. -/
namespace Gateway.Auth
open Interaction

/-- The columns of virtual_keys that matter here, joined with their team and org. -/
structure Row where
  id : String
  hash : Hash
  identity : Identity
  revoked : Bool

/-- The table with its primary key and its unique column. -/
structure Table where
  rows : List Row
  ids : (rows.map Row.id).Nodup
  hashes : (rows.map Row.hash).Nodup

def Row.revokeIf (id : String) (row : Row) : Row :=
  if row.id = id ∧ row.revoked = false then { row with revoked := true } else row

theorem Row.revokeIf_id (id : String) (row : Row) : (row.revokeIf id).id = row.id := by
  unfold revokeIf
  split <;> rfl

theorem Row.revokeIf_hash (id : String) (row : Row) : (row.revokeIf id).hash = row.hash := by
  unfold revokeIf
  split <;> rfl

namespace Table

/-- The SELECT of Store.Resolve. -/
def resolve (t : Table) (hash : Hash) : Except AuthError (Identity × Bool) :=
  match t.rows.find? fun row => row.hash = hash with
  | some row => .ok (row.identity, row.revoked)
  | none => .error .notFound

/-- The table after the UPDATE of Store.RevokeKey. -/
def revoke (t : Table) (id : String) : Table where
  rows := t.rows.map (Row.revokeIf id)
  ids := by
    rw [List.map_map]
    simpa only [Function.comp_def, Row.revokeIf_id] using t.ids
  hashes := by
    rw [List.map_map]
    simpa only [Function.comp_def, Row.revokeIf_hash] using t.hashes

/-- Store.RevokeKey: the hash of the row it revoked. -/
def revokeKey (t : Table) (id : String) : Except AuthError Hash × Table :=
  match t.rows.find? fun row => row.id = id ∧ row.revoked = false with
  | some row => (.ok row.hash, t.revoke id)
  | none => (.error .notFound, t)

/-- `hash` is the hash of key `id`. -/
def Holds (t : Table) (id : String) (hash : Hash) : Prop :=
  ∃ row ∈ t.rows, row.id = id ∧ row.hash = hash

def Revoked (t : Table) (hash : Hash) : Prop := ∃ row ∈ t.rows, row.hash = hash ∧ row.revoked = true

theorem resolve_of_revoked {t : Table} {hash : Hash} (h : t.Revoked hash) :
    ∃ id, t.resolve hash = .ok (id, true) := by
  obtain ⟨row, member, rfl, revoked⟩ := h
  have found : t.rows.find? (fun other => other.hash = row.hash) = some row := by
    cases hf : t.rows.find? (fun other => other.hash = row.hash) with
    | none =>
        have := List.find?_eq_none.mp hf row member
        simp at this
    | some other =>
        have same : other.hash = row.hash := by simpa using List.find?_some hf
        rw [List.inj_on_of_nodup_map t.hashes (List.mem_of_find?_eq_some hf) member same]
  exact ⟨row.identity, by simp only [resolve, found, revoked]⟩

theorem Revoked.revoke {t : Table} {hash : Hash} (h : t.Revoked hash) (id : String) :
    (t.revoke id).Revoked hash := by
  obtain ⟨row, member, same, revoked⟩ := h
  refine ⟨row.revokeIf id, List.mem_map_of_mem member, by rw [Row.revokeIf_hash, same], ?_⟩
  simp [Row.revokeIf, revoked]

theorem Holds.revoke {t : Table} {id : String} {hash : Hash} (h : t.Holds id hash) (other : String) :
    (t.revoke other).Holds id hash := by
  obtain ⟨row, member, key, same⟩ := h
  exact ⟨row.revokeIf other, List.mem_map_of_mem member, by rw [Row.revokeIf_id, key],
    by rw [Row.revokeIf_hash, same]⟩

theorem Holds.unique {t : Table} {id : String} {hash other : Hash} (h : t.Holds id hash)
    (h' : t.Holds id other) : hash = other := by
  obtain ⟨row, member, key, rfl⟩ := h
  obtain ⟨row', member', key', rfl⟩ := h'
  rw [List.inj_on_of_nodup_map t.ids member member' (key.trans key'.symm)]

/-- RevokeKey either finds nothing to revoke, or revokes the row it returns the hash of. -/
theorem revokeKey_cases (t : Table) (id : String) :
    ((t.revokeKey id).1 = .error .notFound ∧ (t.revokeKey id).2 = t) ∨
      ∃ hash, (t.revokeKey id).1 = .ok hash ∧ (t.revokeKey id).2 = t.revoke id ∧
        t.Holds id hash ∧ (t.revoke id).Revoked hash := by
  unfold revokeKey
  cases hf : t.rows.find? fun row => row.id = id ∧ row.revoked = false with
  | none => exact .inl ⟨rfl, rfl⟩
  | some row =>
      have member := List.mem_of_find?_eq_some hf
      obtain ⟨key, live⟩ : row.id = id ∧ row.revoked = false := by simpa using List.find?_some hf
      refine .inr ⟨row.hash, rfl, rfl, ⟨row, member, key, rfl⟩, row.revokeIf id,
        List.mem_map_of_mem member, Row.revokeIf_hash id row, ?_⟩
      simp [Row.revokeIf, key, live]

end Table

/-- `deleted` remembers the cache keys Invalidate has removed; no operation reads it. -/
structure World where
  cache : String → Option String
  table : Table
  deleted : String → Bool := fun _ => false

/-- Whether the entry a Get asks for has outlived its TTL. -/
structure Input where
  expired : Bool

def World.serve (w : World) (input : Input) : (op : Op) → op.Reply × World
  | .get key =>
      if input.expired then (.error "auth: cache miss", { w with cache := Function.update w.cache key none })
      else
        match w.cache key with
        | some raw => (.ok raw, w)
        | none => (.error "auth: cache miss", w)
  | .set key value _ => (none, { w with cache := Function.update w.cache key (some value) })
  | .del key =>
      (none, { w with cache := Function.update w.cache key none
                      deleted := Function.update w.deleted key true })
  | .resolve hash => (w.table.resolve hash, w)
  | .revokeKey id => ((w.table.revokeKey id).1, { w with table := (w.table.revokeKey id).2 })

inductive Job where
  | resolve (plaintextKey : String)
  | revoke (pathID : String)

inductive Outcome where
  | resolved (result : Except AuthError Identity)
  | answered (answer : Answer)

/-- Where a revoke request stands: the key it has revoked, and whether its entry is gone. -/
inductive Stage where
  | idle
  | revoked (id : String) (hash : Hash)
  | invalidated (id : String) (hash : Hash)

/-- Only the entry of a key that was revoked before is ever deleted. -/
def revoking : Protocol Op Op.Reply World Stage where
  advance _ stage ev :=
    match ev with
    | ⟨.revokeKey id, .ok hash⟩ => .revoked id hash
    | ⟨.del _, _⟩ =>
        match stage with
        | .revoked id hash => .invalidated id hash
        | other => other
    | _ => stage
  legal stage ev :=
    match ev.1 with
    | .del key => ∃ id hash, stage = .revoked id hash ∧ key = cacheKey hash
    | .revokeKey _ => stage = .idle
    | _ => True

structure Deployment where
  resolver : CachingResolver
  parse : String → Option String

def Job.program (d : Deployment) : Job → AuthM Outcome
  | .resolve plaintextKey => do
      let result ← d.resolver.resolve plaintextKey
      pure (.resolved result)
  | .revoke pathID => do
      let answer ← handleRevokeKey d.parse pathID
      pure (.answered answer)

def keys (d : Deployment) : System Op Op.Reply Stage Outcome World Job Input where
  program := Job.program d
  idle := .idle
  serve := World.serve
  protocol := revoking

abbrev KeyPool := Pool Op Op.Reply Stage Outcome World

/-- The condition on one step: it does not put an entry that lets a key pass into the cache
after the entry of that key was deleted by its revocation. -/
def timely (d : Deployment) (pool : KeyPool) : Move Job Input → Bool
  | .start _ => true
  | .act i _ =>
      match pool.processes[i]? with
      | some ⟨.request (.set key value _) _, _⟩ =>
          !pool.shared.deleted key || (d.resolver.unmarshal value).all fun e => e.revoked
      | _ => true

/-- What a stage says about the world. -/
def Stage.Backed (w : World) : Stage → Prop
  | .idle => True
  | .revoked id hash => w.table.Holds id hash ∧ w.table.Revoked hash
  | .invalidated id hash =>
      w.table.Holds id hash ∧ w.table.Revoked hash ∧ w.deleted (cacheKey hash) = true

/-- A deleted entry belongs to a revoked key and has not come back to life. -/
def Barred (d : Deployment) (w : World) : Prop :=
  ∀ hash, w.deleted (cacheKey hash) = true → w.table.Revoked hash ∧
    ∀ raw e, w.cache (cacheKey hash) = some raw → d.resolver.unmarshal raw = some e → e.revoked = true

/-- What no step takes back. -/
structure World.Grows (w w' : World) : Prop where
  holds : ∀ {id hash}, w.table.Holds id hash → w'.table.Holds id hash
  revoked : ∀ {hash}, w.table.Revoked hash → w'.table.Revoked hash
  deleted : ∀ {key}, w.deleted key = true → w'.deleted key = true

theorem World.Grows.refl (w : World) : w.Grows w := ⟨id, id, id⟩

theorem Stage.Backed.grows {w w' : World} {stage : Stage} (h : stage.Backed w) (grows : w.Grows w') :
    stage.Backed w' := by
  cases stage with
  | idle => trivial
  | revoked id hash => exact ⟨grows.holds h.1, grows.revoked h.2⟩
  | invalidated id hash => exact ⟨grows.holds h.1, grows.revoked h.2.1, grows.deleted h.2.2⟩

/-- A Get finds what is stored, or reports a miss; an expired entry is gone afterwards. -/
theorem World.serve_get (w : World) (input : Input) (key : String) :
    (∃ raw, w.cache key = some raw ∧ w.serve input (.get key) = (.ok raw, w)) ∨
      ∃ w', w.serve input (.get key) = (.error "auth: cache miss", w') ∧
        (w' = w ∨ w' = { w with cache := Function.update w.cache key none }) := by
  cases expired : input.expired with
  | true => exact .inr ⟨_, by simp only [serve, expired, if_true], .inr rfl⟩
  | false =>
      cases found : w.cache key with
      | some raw => exact .inl ⟨raw, rfl, by simp [serve, expired, found]⟩
      | none => exact .inr ⟨w, by simp [serve, expired, found], .inl rfl⟩

theorem World.serve_grows (w : World) (input : Input) (op : Op) : w.Grows (w.serve input op).2 := by
  cases op with
  | get key =>
      obtain ⟨raw, -, same⟩ | ⟨w', same, rfl | rfl⟩ := w.serve_get input key
      · rw [same]
        exact .refl w
      · rw [same]
        exact .refl w'
      · rw [same]
        exact ⟨id, id, id⟩
  | set key value ttl => exact ⟨id, id, id⟩
  | del key =>
      refine ⟨id, id, ?_⟩
      intro other gone
      simp only [serve, Function.update_apply]
      split
      · rfl
      · exact gone
  | resolve hash => exact .refl w
  | revokeKey id =>
      show w.Grows { w with table := (w.table.revokeKey id).2 }
      rcases w.table.revokeKey_cases id with ⟨-, same⟩ | ⟨hash, -, same, -, -⟩
      · rw [same]
        exact .refl w
      · rw [same]
        exact ⟨fun h => h.revoke id, fun h => h.revoke id, fun gone => gone⟩

/-- A step keeps deleted entries barred, if a Delete is for a revoked key and a Set is timely. -/
theorem Barred.serve {d : Deployment} {w : World} (h : Barred d w) (input : Input) (op : Op)
    (deletes : ∀ key, op = .del key → ∃ hash, key = cacheKey hash ∧ w.table.Revoked hash)
    (sets : ∀ key value ttl, op = .set key value ttl → w.deleted key = true →
      ∀ e, d.resolver.unmarshal value = some e → e.revoked = true) :
    Barred d (w.serve input op).2 := by
  have grows := w.serve_grows input op
  intro hash gone
  cases op with
  | get key =>
      obtain ⟨raw, -, same⟩ | ⟨w', same, rfl | rfl⟩ := w.serve_get input key
      · rw [same] at gone ⊢
        exact h hash gone
      · rw [same] at gone ⊢
        exact h hash gone
      · rw [same] at gone ⊢
        obtain ⟨revoked, dead⟩ := h hash gone
        refine ⟨revoked, ?_⟩
        intro raw e stored
        simp only [Function.update_apply] at stored
        split at stored
        · cases stored
        · exact dead raw e stored
  | set key value ttl =>
      obtain ⟨revoked, dead⟩ := h hash gone
      refine ⟨revoked, ?_⟩
      intro raw e stored decoded
      simp only [World.serve, Function.update_apply] at stored
      split at stored
      · rename_i same
        cases stored
        exact sets key value ttl rfl (same ▸ gone) e decoded
      · exact dead raw e stored decoded
  | del key =>
      obtain ⟨other, rfl, revoked⟩ := deletes key rfl
      simp only [World.serve, Function.update_apply] at gone ⊢
      by_cases same : cacheKey hash = cacheKey other
      · rw [cacheKey_inj same]
        exact ⟨revoked, by simp⟩
      · rw [if_neg same] at gone
        obtain ⟨revoked, dead⟩ := h hash gone
        exact ⟨revoked, by simpa [same] using dead⟩
  | resolve hash' => exact h hash gone
  | revokeKey id =>
      obtain ⟨revoked, dead⟩ := h hash gone
      exact ⟨grows.revoked revoked, dead⟩

/-- A revoke request that answers 204 has deleted the entry of the key it revoked. -/
def RevokedBy (d : Deployment) (pathID : String) (outcome : Outcome) (stage : Stage) : Prop :=
  ∀ message, outcome = .answered ⟨204, message⟩ →
    ∃ id hash, d.parse pathID = some id ∧ stage = .invalidated id hash

theorem handleRevokeKey_follows (d : Deployment) (pathID : String) :
    (Job.program d (.revoke pathID)).Follows revoking (RevokedBy d pathID) .idle := by
  unfold Job.program handleRevokeKey
  simp only
  cases hp : d.parse pathID with
  | none =>
      refine Program.Follows.pure ?_
      intro message same
      cases same
  | some id =>
      refine Program.Follows.perform_bind fun reply => ⟨rfl, fun c => ?_⟩
      cases reply with
      | ok hash =>
          refine Program.Follows.perform_bind fun reply => ⟨⟨id, hash, rfl, rfl⟩, fun c => ?_⟩
          intro message same
          exact ⟨id, hash, hp, rfl⟩
      | error err =>
          cases err <;>
          · intro message same
            cases same

theorem resolveFromStore_follows (c : CachingResolver) (hash : Hash) :
    (c.resolveFromStore hash).Follows revoking (fun _ _ => True) .idle := by
  refine Program.Follows.perform_bind fun found => ⟨trivial, fun _ => ?_⟩
  cases found with
  | error err => trivial
  | ok found => exact fun _ => ⟨trivial, fun _ => trivial⟩

theorem job_follows (d : Deployment) (job : Job) :
    (Job.program d job).Follows revoking (fun _ _ => True) .idle := by
  cases job with
  | revoke pathID => exact (handleRevokeKey_follows d pathID).mono fun _ _ _ => trivial
  | resolve plaintextKey =>
      have resolves : (d.resolver.resolve plaintextKey).Follows revoking (fun _ _ => True) .idle := by
        refine Program.Follows.perform_bind fun raw => ⟨trivial, fun _ => ?_⟩
        cases raw with
        | error err => exact resolveFromStore_follows _ _
        | ok raw =>
            simp only
            split
            · trivial
            · exact resolveFromStore_follows _ _
      exact resolves.bind fun _ _ _ => trivial

/-- The invariant of every run: stages tell the truth and deleted entries stay barred. -/
structure Sound (d : Deployment) (pool : KeyPool) : Prop where
  disciplined : (keys d).Disciplined (fun _ _ => True) pool
  backed : ∀ p ∈ pool.processes, p.state.Backed pool.shared
  barred : Barred d pool.shared

/-- The stage a process reaches is backed by the world its own step leaves. -/
theorem advance_backed {w : World} {stage : Stage} (input : Input) (op : Op)
    (h : stage.Backed w) (legal : revoking.legal stage ⟨op, (w.serve input op).1⟩) :
    (revoking.advance (w.serve input op).2 stage ⟨op, (w.serve input op).1⟩).Backed
      (w.serve input op).2 := by
  have kept := h.grows (w.serve_grows input op)
  cases op with
  | get key => exact kept
  | set key value ttl => exact kept
  | resolve hash => exact kept
  | del key =>
      obtain ⟨id, hash, rfl, rfl⟩ := legal
      exact ⟨kept.1, kept.2, by simp [World.serve]⟩
  | revokeKey id =>
      show (revoking.advance _ stage ⟨.revokeKey id, (w.table.revokeKey id).1⟩).Backed
        { w with table := (w.table.revokeKey id).2 }
      rcases w.table.revokeKey_cases id with ⟨failed, -⟩ | ⟨hash, done, same, holds, revoked⟩
      · rw [failed]
        exact kept
      · rw [done, same]
        exact ⟨holds.revoke id, revoked⟩

theorem Sound.step {d : Deployment} {pool next : KeyPool} {move : Move Job Input} (h : Sound d pool)
    (ok : timely d pool move = true) (moved : (keys d).step pool move = some next) :
    Sound d next := by
  refine ⟨h.disciplined.step (job_follows d) moved, ?_, ?_⟩
  · cases move with
    | start job =>
        cases moved
        intro p member
        rcases List.mem_append.mp member with old | new
        · exact h.backed p old
        · rw [List.mem_singleton.mp new]
          trivial
    | act i input =>
        obtain ⟨op, continue_, stage, found, rfl⟩ := System.act_cases moved
        have member := List.mem_of_getElem? found
        intro p listed
        rcases List.mem_or_eq_of_mem_set listed with old | rfl
        · exact (h.backed p old).grows (pool.shared.serve_grows input op)
        · exact advance_backed input op (h.backed _ member) (h.disciplined _ member _).1
  · cases move with
    | start job =>
        cases moved
        exact h.barred
    | act i input =>
        obtain ⟨op, continue_, stage, found, rfl⟩ := System.act_cases moved
        have member := List.mem_of_getElem? found
        refine h.barred.serve input op ?_ ?_
        · rintro key rfl
          obtain ⟨id, hash, rfl, rfl⟩ := (h.disciplined _ member none).1
          exact ⟨hash, rfl, (h.backed _ member).2⟩
        · rintro key value ttl rfl gone e decoded
          simp only [timely, found, gone, decoded, Bool.not_true, Bool.false_or] at ok
          exact ok

/-- What a Resolve learns about a key that is barred. -/
def Dead (d : Deployment) (hash : Hash) : Event Op Op.Reply → Prop
  | ⟨.get key, .ok raw⟩ => key = cacheKey hash → ∀ e, d.resolver.unmarshal raw = some e →
      e.revoked = true
  | ⟨.resolve hash', found⟩ => hash' = hash → ∃ id, found = .ok (id, true)
  | _ => True

theorem resolveFromStore_given {d : Deployment} {hash : Hash} :
    (d.resolver.resolveFromStore hash).Given (Dead d hash) (· = .error .revoked) := by
  refine Program.Given.perform_bind fun found dead => ?_
  obtain ⟨id, rfl⟩ := dead rfl
  exact fun _ _ => rfl

/-- A Resolve that only learns what a barred key shows returns ErrRevoked. -/
theorem resolve_given (d : Deployment) (plaintextKey : String) :
    (Job.program d (.resolve plaintextKey)).Given (Dead d (d.resolver.hashKey plaintextKey))
      (· = .resolved (.error .revoked)) := by
  have resolves : (d.resolver.resolve plaintextKey).Given (Dead d (d.resolver.hashKey plaintextKey))
      (· = .error .revoked) := by
    refine Program.Given.perform_bind fun raw dead => ?_
    cases raw with
    | error err => exact resolveFromStore_given
    | ok raw =>
        simp only
        cases decoded : d.resolver.unmarshal raw with
        | none => exact resolveFromStore_given
        | some e =>
            show verdict e.identity e.revoked = .error .revoked
            rw [dead rfl e decoded]
            rfl
  refine resolves.bind ?_
  rintro result rfl
  rfl

theorem serve_dead {d : Deployment} {w : World} {hash : Hash} (barred : Barred d w)
    (gone : w.deleted (cacheKey hash) = true) (input : Input) (op : Op) :
    Dead d hash ⟨op, (w.serve input op).1⟩ := by
  obtain ⟨revoked, dead⟩ := barred hash gone
  cases op with
  | get key =>
      obtain ⟨raw, stored, same⟩ | ⟨w', same, -⟩ := w.serve_get input key
      · rw [same]
        rintro rfl e decoded
        exact dead raw e stored decoded
      · rw [same]
        trivial
  | resolve other =>
      rintro rfl
      exact Table.resolve_of_revoked revoked
  | _ => trivial

theorem step_grows {d : Deployment} {pool next : KeyPool} {move : Move Job Input}
    (moved : (keys d).step pool move = some next) : pool.shared.Grows next.shared := by
  cases move with
  | start job =>
      cases moved
      exact .refl _
  | act i input =>
      obtain ⟨op, continue_, stage, found, rfl⟩ := System.act_cases moved
      exact pool.shared.serve_grows input op

theorem start_process {d : Deployment} {pool next : KeyPool} {job : Job}
    (moved : (keys d).step pool (.start job) = some next) :
    next.processes[pool.processes.length]? = some ⟨Job.program d job, .idle⟩ := by
  cases moved
  exact List.getElem?_concat_length

/-- A sound pool in which the key with this id has this hash. -/
structure Holding (d : Deployment) (id : String) (hash : Hash) (pool : KeyPool) : Prop where
  sound : Sound d pool
  holds : pool.shared.table.Holds id hash

section Holding
variable {d : Deployment} {id : String} {hash : Hash} {pool next : KeyPool} {move : Move Job Input}

theorem Holding.initial (fresh : pool.processes = [] ∧ pool.shared.deleted = fun _ => false)
    (key : pool.shared.table.Holds id hash) : Holding d id hash pool := by
  refine ⟨⟨?_, ?_, ?_⟩, key⟩
  · simp [System.Disciplined, fresh.1]
  · simp [fresh.1]
  · intro hash gone
    simp [fresh.2] at gone

theorem Holding.step (h : Holding d id hash pool) (ok : timely d pool move = true)
    (moved : (keys d).step pool move = some next) : Holding d id hash next :=
  ⟨h.sound.step ok moved, (step_grows moved).holds h.holds⟩

/-- An answered request has revoked the key and deleted its entry. -/
theorem deleted_of_answered {before running answered : KeyPool} {pathID : String}
    {message : Option String} {m : Stage} (h : Holding d id hash before)
    (parsed : d.parse pathID = some id)
    (request : (keys d).step before (.start (.revoke pathID)) = some running)
    (runs : (keys d).Reaches (fun pool move => timely d pool move = true) running answered)
    (done : answered.processes[before.processes.length]? =
      some ⟨.pure (.answered ⟨204, message⟩), m⟩) :
    Holding d id hash answered ∧ answered.shared.deleted (cacheKey hash) = true := by
  obtain ⟨holding, p, same, follows⟩ := runs.process_invariant
    (Q := fun p => p.program.Follows revoking (RevokedBy d pathID) p.state)
    (h.step rfl request) (start_process request) (handleRevokeKey_follows d pathID)
    (fun _ _ _ inv ok moved => inv.step ok moved)
    fun pool input e next m _ follows =>
      (follows (pool.shared.serve input e).1).2 (pool.shared.serve input e).2
  rw [done] at same
  cases same
  obtain ⟨id', hash', parsed', rfl⟩ := follows message rfl
  rw [parsed] at parsed'
  cases parsed'
  obtain ⟨own, -, gone⟩ := holding.sound.backed _ (List.mem_of_getElem? done)
  rw [own.unique holding.holds] at gone
  exact ⟨holding, gone⟩

/-- A Resolve of a key whose entry is deleted sees it barred. -/
theorem resolved_of_deleted {answered started pool : KeyPool} {plaintextKey : String}
    {outcome : Outcome} {m : Stage} (sound : Sound d answered)
    (gone : answered.shared.deleted (cacheKey (d.resolver.hashKey plaintextKey)) = true)
    (start : (keys d).step answered (.start (.resolve plaintextKey)) = some started)
    (later : (keys d).Reaches (fun pool move => timely d pool move = true) started pool)
    (returned : pool.processes[answered.processes.length]? = some ⟨.pure outcome, m⟩) :
    outcome = .resolved (.error .revoked) := by
  let Barring (pool : KeyPool) : Prop :=
    Sound d pool ∧ pool.shared.deleted (cacheKey (d.resolver.hashKey plaintextKey)) = true
  have preserve : ∀ pool move next, Barring pool → timely d pool move = true →
      (keys d).step pool move = some next → Barring next :=
    fun _ _ _ inv ok moved => ⟨inv.1.step ok moved, (step_grows moved).deleted inv.2⟩
  obtain ⟨-, p, same, given⟩ := later.process_invariant
    (Q := fun p => p.program.Given (Dead d (d.resolver.hashKey plaintextKey))
      fun outcome => outcome = Outcome.resolved (.error .revoked))
    (preserve _ _ _ ⟨sound, gone⟩ rfl start) (start_process start) (resolve_given d plaintextKey)
    preserve fun pool input e next m inv given => given _ (serve_dead inv.1.barred inv.2 input e)
  rw [returned] at same
  cases same
  exact given

end Holding

/-- Revocation is immediate: in every run in which no step revives a deleted entry, a
Resolve that is started after the revoke request of its key has been answered with 204
returns ErrRevoked. -/
theorem revocation_immediate (d : Deployment) {first before running answered started pool : KeyPool}
    {pathID id plaintextKey : String} {message : Option String} {outcome : Outcome} {m m' : Stage}
    (fresh : first.processes = [] ∧ first.shared.deleted = fun _ => false)
    (parsed : d.parse pathID = some id)
    (key : first.shared.table.Holds id (d.resolver.hashKey plaintextKey))
    (reached : (keys d).Reaches (fun pool move => timely d pool move = true) first before)
    (request : (keys d).step before (.start (.revoke pathID)) = some running)
    (runs : (keys d).Reaches (fun pool move => timely d pool move = true) running answered)
    (done : answered.processes[before.processes.length]? =
      some ⟨.pure (.answered ⟨204, message⟩), m⟩)
    (start : (keys d).step answered (.start (.resolve plaintextKey)) = some started)
    (later : (keys d).Reaches (fun pool move => timely d pool move = true) started pool)
    (returned : pool.processes[answered.processes.length]? = some ⟨.pure outcome, m'⟩) :
    outcome = .resolved (.error .revoked) := by
  have holding := reached.invariant (Holding.initial fresh key)
    fun _ _ _ inv ok moved => Holding.step inv ok moved
  obtain ⟨answeredHolding, gone⟩ := deleted_of_answered holding parsed request runs done
  exact resolved_of_deleted answeredHolding.sound gone start later returned

/-- A key "secret" with id "k1", and a codec that keeps only whether it is revoked. -/
def oneKey : Deployment where
  resolver :=
    { hashKey := fun _ => [1]
      marshal := fun e => if e.revoked then "revoked" else "live"
      unmarshal := fun raw =>
        if raw = "revoked" then some ⟨⟨"acme", "search", "k1", [], 0, 0, none⟩, true⟩
        else if raw = "live" then some ⟨⟨"acme", "search", "k1", [], 0, 0, none⟩, false⟩
        else none
      ttl := 0 }
  parse := some

def oneKeyPool : KeyPool where
  shared :=
    { cache := fun _ => none
      table := ⟨[⟨"k1", [1], ⟨"acme", "search", "k1", [], 0, 0, none⟩, false⟩], by simp, by simp⟩ }
  processes := []

/-- Process `i` takes a step, with nothing expired. -/
def tick (i : Nat) : Move Job Input := .act i ⟨false⟩

/-- The pool a schedule leads to, or the one it started from if a step fails. -/
def after (ok : KeyPool → Move Job Input → Bool) (pool : KeyPool) (moves : List (Move Job Input)) :
    KeyPool := ((keys oneKey).run ok pool moves).getD pool

theorem reaches_after (ok : KeyPool → Move Job Input → Bool) (pool : KeyPool)
    (moves : List (Move Job Input)) (h : ((keys oneKey).run ok pool moves).isSome = true) :
    (keys oneKey).Reaches (fun pool move => ok pool move = true) pool (after ok pool moves) := by
  obtain ⟨next, ran⟩ := Option.isSome_iff_exists.mp h
  rw [after, ran]
  exact System.Reaches.of_run ran

/-- A revoke request on its own, and then a Resolve. -/
theorem undisturbed_revocation_immediate :
    let running := after (timely oneKey) oneKeyPool [.start (.revoke "k1")]
    let answered := after (timely oneKey) running [tick 0, tick 0]
    let started := after (timely oneKey) answered [.start (.resolve "secret")]
    let pool := after (timely oneKey) started [tick 1, tick 1, tick 1]
    ∃ outcome m, (keys oneKey).Reaches (fun pool move => timely oneKey pool move = true) started pool ∧
      pool.processes[1]? = some ⟨.pure outcome, m⟩ ∧ outcome = .resolved (.error .revoked) := by
  intro running answered started pool
  have holds : oneKeyPool.shared.table.Holds "k1" (oneKey.resolver.hashKey "secret") :=
    ⟨_, List.mem_cons_self, rfl, rfl⟩
  have later := reaches_after (timely oneKey) started [tick 1, tick 1, tick 1] (by decide +kernel)
  refine ⟨_, _, later, rfl, ?_⟩
  exact revocation_immediate oneKey ⟨rfl, rfl⟩ rfl holds .refl rfl
    (reaches_after _ running [tick 0, tick 0] (by decide +kernel)) rfl rfl later rfl

/-- A Resolve reads the key, the key is revoked and its entry deleted, and then the Resolve
caches what it has read: the next Resolve lets the revoked key pass. -/
theorem late_set_revives_key :
    let all : KeyPool → Move Job Input → Bool := fun _ _ => true
    let answered := after all oneKeyPool [.start (.resolve "secret"), tick 0, tick 0,
      .start (.revoke "k1"), tick 1, tick 1]
    let started := after all answered [.start (.resolve "secret")]
    let pool := after all started [tick 0, tick 2]
    (keys oneKey).Reaches (fun _ _ => True) oneKeyPool answered ∧
      (∃ m, answered.processes[1]? = some ⟨.pure (.answered ⟨204, none⟩), m⟩) ∧
      (keys oneKey).step answered (.start (.resolve "secret")) = some started ∧
      (keys oneKey).Reaches (fun _ _ => True) started pool ∧
      ∃ m, pool.processes[2]? =
        some ⟨.pure (.resolved (.ok ⟨"acme", "search", "k1", [], 0, 0, none⟩)), m⟩ := by
  intro all answered started pool
  have first := reaches_after all oneKeyPool [.start (.resolve "secret"), tick 0, tick 0,
    .start (.revoke "k1"), tick 1, tick 1] (by decide +kernel)
  have last := reaches_after all started [tick 0, tick 2] (by decide +kernel)
  refine ⟨?_, ⟨_, rfl⟩, rfl, ?_, ⟨_, rfl⟩⟩
  · exact first.mono fun _ _ _ => trivial
  · exact last.mono fun _ _ _ => trivial

end Gateway.Auth
