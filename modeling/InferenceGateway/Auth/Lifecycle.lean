import InferenceGateway.Auth.Codec
import InferenceGateway.Auth.Issue
import InferenceGateway.Auth.Revocation
import InferenceGateway.Redis.Strings

/-! The life of virtual keys in one running gateway: any number of requests that present,
issue and revoke keys are interleaved operation by operation. Redis and Postgres may fail any
operation, before or after it took effect; cached identities expire. -/
namespace Gateway.Auth.Lifecycle
open Gateway.RateLimit (Fate)
open Gateway.Redis (Strings expiryOf)
open Interaction

/-- The clock all times are read from, the identity cache with expiry times, and the tables. -/
structure World where
  clock : Int
  cache : Strings
  db : Database

/-- What a step brings with it: the time, the fate of the operation, random bytes and the
UUID of a new row. -/
structure Turn where
  now : Int
  fate : Fate
  random : (n : Nat) → Except String { raw : List UInt8 // raw.length = n }
  newID : String

/-- The clock never goes back. -/
def World.now (w : World) (turn : Turn) : Int := max w.clock turn.now

def World.get (w : World) (turn : Turn) (key : String) : Except String String :=
  match turn.fate.err, w.cache.live (w.now turn) key with
  | some err, _ => .error err
  | none, some raw => .ok raw
  | none, none => .error "auth: cache miss"

def World.resolve (w : World) (turn : Turn) (hash : Hash) : Except AuthError (Identity × Bool) :=
  match turn.fate.err with
  | some err => .error (.other ("auth: resolve key: " ++ err))
  | none => w.db.resolve hash

def World.revokeKey (w : World) (turn : Turn) (id : String) : Except AuthError Hash × Database :=
  let revoked := w.db.revokeKey id (w.now turn)
  (match turn.fate.err with
    | some err => .error (.other ("auth: revoke key: " ++ err))
    | none => revoked.1,
    if turn.fate.executes then revoked.2 else w.db)

def NewKey.row (key : NewKey) (id : String) (now : Int) : KeyRow where
  id := id
  teamID := key.teamID
  hash := key.hash
  keyPrefix := key.keyPrefix
  label := key.label
  allowedModels := key.allowedModels
  tpmLimit := key.tpmLimit
  createdAt := now

def World.insertKey (w : World) (turn : Turn) (key : NewKey) : Except String (String × Int) × Database :=
  match w.db.insertKey (NewKey.row key turn.newID (w.now turn)) with
  | none => (.error "constraint violation", w.db)
  | some db =>
      (match turn.fate.err with
        | some err => .error err
        | none => .ok (turn.newID, w.now turn),
        if turn.fate.executes then db else w.db)

def World.serve (w : World) (turn : Turn) : (op : KeyOp) → op.Reply × World
  | .auth (.get key) => (w.get turn key, { w with clock := w.now turn })
  | .auth (.set key value ttl) =>
      (turn.fate.err, { w with
        clock := w.now turn, cache := w.cache.set turn.fate (w.now turn) key value ttl })
  | .auth (.del key) =>
      (turn.fate.err, { w with clock := w.now turn, cache := w.cache.del turn.fate key })
  | .auth (.resolve hash) => (w.resolve turn hash, { w with clock := w.now turn })
  | .auth (.revokeKey id) =>
      ((w.revokeKey turn id).1, { w with clock := w.now turn, db := (w.revokeKey turn id).2 })
  | .randRead n => (turn.random n, { w with clock := w.now turn })
  | .insertKey key =>
      ((w.insertKey turn key).1, { w with clock := w.now turn, db := (w.insertKey turn key).2 })

inductive Job where
  | present (authorization : String)
  | revoke (pathID : String)
  | issue (body : Except String IssueKeyRequest)

inductive Outcome where
  | presented (result : Option (Except AuthError Identity))
  | answered (answer : Answer)
  | issued (answer : IssueAnswer)
  deriving DecidableEq

def Job.program (d : Deployment) : Job → KeyM Outcome
  | .present authorization => do
      let result ← overKeys (resolveBearer d.resolver authorization)
      pure (.presented result)
  | .revoke pathID => do
      let answer ← overKeys (handleRevokeKey d.parse pathID)
      pure (.answered answer)
  | .issue body => do
      let answer ← handleIssueKey d.resolver.hashKey d.parse body
      pure (.issued answer)

/-- What a request last learned: an entry of the cache or of the table, with the time, the
error of reading the table, or the key it had inserted. -/
inductive Stage where
  | idle
  | cached (key : String) (entry : CachedEntry) (time : Int)
  | read (key : String) (entry : CachedEntry) (time : Int)
  | refused (err : AuthError)
  | inserted (key : NewKey) (id : String) (createdAt : Int)

def Stage.advance (d : Deployment) (w : World) (stage : Stage) : Event KeyOp KeyOp.Reply → Stage
  | ⟨.auth (.get key), .ok raw⟩ =>
      ((d.resolver.unmarshal raw).map fun entry => .cached key entry w.clock).getD stage
  | ⟨.auth (.resolve hash), .ok (id, revoked)⟩ => .read (cacheKey hash) ⟨id, revoked⟩ w.clock
  | ⟨.auth (.resolve _), .error err⟩ => .refused err
  | ⟨.insertKey key, .ok (id, createdAt)⟩ => .inserted key id createdAt
  | _ => stage

/-- Only what was read from the table is cached, under its own key. -/
def Stage.legal (d : Deployment) (stage : Stage) : Event KeyOp KeyOp.Reply → Prop
  | ⟨.auth (.set key value ttl), _⟩ =>
      ∃ entry time, stage = .read key entry time ∧ value = d.resolver.marshal entry ∧
        ttl = d.resolver.ttl
  | _ => True

def lifecycle (d : Deployment) : Protocol KeyOp KeyOp.Reply World Stage where
  advance := Stage.advance d
  legal := Stage.legal d

abbrev KeyPool := Pool KeyOp KeyOp.Reply Stage Outcome World

def keys (d : Deployment) : System KeyOp KeyOp.Reply Stage Outcome World Job Turn where
  program := Job.program d
  idle := .idle
  serve := World.serve
  protocol := lifecycle d

/-- What was read from the table is cached within the request timeout. -/
def prompt (timeout : Int) (pool : KeyPool) : Move Job Turn → Bool
  | .start _ => true
  | .act i turn =>
      match pool.processes[i]? with
      | some ⟨.request (.auth (.set _ _ _)) _, .read _ _ time⟩ =>
          decide (pool.shared.now turn ≤ time + timeout)
      | _ => true

/-- An entry known at `time` is that of a row of the table. If it says the key is live, the key
had been revoked for at most `slack` by then. -/
structure Genuine (w : World) (key : String) (entry : CachedEntry) (time slack : Int)
    (hash : Hash) (row : KeyRow) : Prop where
  own : key = cacheKey hash
  past : time ≤ w.clock + slack
  found : w.db.find hash = some row
  identity : w.db.identity row = some entry.identity
  revoked : entry.revoked = true → row.revokedAt ≠ none
  live : entry.revoked = false → ∀ t, row.revokedAt = some t → time ≤ t + slack

/-- Some row stands behind an entry. -/
def Known (w : World) (key : String) (entry : CachedEntry) (time slack : Int) : Prop :=
  ∃ hash row, Genuine w key entry time slack hash row

/-- The resolver's codec is faithful, its entries expire, and requests have a timeout. -/
structure Configured (d : Deployment) (timeout : Int) : Prop where
  codec : ∀ entry, d.resolver.unmarshal (d.resolver.marshal entry) = some entry
  lasting : 0 < d.resolver.ttl
  patient : 0 ≤ timeout

/-- How long a revoked key may still be let pass. -/
def staleness (d : Deployment) (timeout : Int) : Int := timeout + d.resolver.ttl.toInt

/-- What a stage says about the world. -/
def Stage.Backed (d : Deployment) (timeout : Int) (w : World) : Stage → Prop
  | .idle => True
  | .cached key entry time => Known w key entry time (staleness d timeout)
  | .read key entry time => Known w key entry time 0
  | .refused err => err ≠ .revoked
  | .inserted key id createdAt =>
      ∃ row, w.db.find key.hash = some row ∧ { row with revokedAt := none } = NewKey.row key id createdAt

/-- Every entry of the cache was read from the table and expires in time. -/
def Cached (d : Deployment) (timeout : Int) (w : World) : Prop :=
  ∀ key raw expiry entry, w.cache key = some (raw, expiry) → d.resolver.unmarshal raw = some entry →
    ∃ time, expiry = some time ∧ Known w key entry time (staleness d timeout)

section Growth
variable {d : Deployment} {timeout : Int} {w : World} {turn : Turn}

theorem Configured.ttl_pos (h : Configured d timeout) : 0 < d.resolver.ttl.toInt := by
  simpa using Int64.lt_iff_toInt_lt.mp h.lasting

theorem Configured.staleness_nonneg (h : Configured d timeout) : 0 ≤ staleness d timeout := by
  have := h.ttl_pos
  have := h.patient
  unfold staleness
  omega

theorem World.serve_clock (w : World) (turn : Turn) (op : KeyOp) :
    (w.serve turn op).2.clock = w.now turn := by
  cases op with
  | auth op => cases op <;> rfl
  | randRead n => rfl
  | insertKey key => rfl

theorem World.serve_grows (w : World) (turn : Turn) (op : KeyOp) :
    w.db.Grows (w.now turn) (w.serve turn op).2.db := by
  cases op with
  | auth op =>
      cases op with
      | revokeKey id =>
          show w.db.Grows (w.now turn) (w.revokeKey turn id).2
          simp only [World.revokeKey]
          split
          · exact Database.revokeKey_grows _ _ _
          · exact .refl _ _
      | _ => exact .refl _ _
  | randRead n => exact .refl _ _
  | insertKey key =>
      show w.db.Grows (w.now turn) (w.insertKey turn key).2
      unfold World.insertKey
      split
      · exact .refl _ _
      · rename_i db inserted
        simp only
        split
        · exact Database.insertKey_grows _ inserted
        · exact .refl _ _

/-- What was known stays known: a row can only be revoked later, at the clock. -/
theorem Known.grows {key : String} {entry : CachedEntry} {time slack : Int} {w' : World}
    (h : Known w key entry time slack) (later : w.clock ≤ w'.clock)
    (grows : w.db.Grows w'.clock w'.db) : Known w' key entry time slack := by
  obtain ⟨hash, row, h⟩ := h
  obtain ⟨row', found, ages⟩ := grows.rows h.found
  have past := h.past
  refine ⟨hash, row', h.own, by omega, found, ?_, ?_, ?_⟩
  · rw [grows.identity, ages.identity, h.identity]
  · intro revoked
    cases ages with
    | kept => exact h.revoked revoked
    | revoked live => simp
  · intro live t since
    cases ages with
    | kept => exact h.live live t since
    | revoked unrevoked =>
        cases since
        omega

theorem Known.serve {key : String} {entry : CachedEntry} {time slack : Int}
    (h : Known w key entry time slack) (op : KeyOp) :
    Known (w.serve turn op).2 key entry time slack := by
  refine h.grows ?_ ?_
  · rw [World.serve_clock]
    exact le_max_left _ _
  · rw [World.serve_clock]
    exact w.serve_grows turn op

theorem Stage.Backed.serve {stage : Stage} (h : stage.Backed d timeout w) (op : KeyOp) :
    stage.Backed d timeout (w.serve turn op).2 := by
  cases stage with
  | idle => trivial
  | cached key entry time => exact Known.serve h op
  | read key entry time => exact Known.serve h op
  | refused err => exact h
  | inserted key id createdAt =>
      obtain ⟨row, found, same⟩ := h
      obtain ⟨row', found', ages⟩ := (w.serve_grows turn op).rows found
      refine ⟨row', found', ?_⟩
      cases ages with
      | kept => exact same
      | revoked live => exact same

theorem World.get_ok {key raw : String} (h : w.get turn key = .ok raw) :
    ∃ expiry, w.cache key = some (raw, expiry) ∧ ∀ time, expiry = some time → w.now turn ≤ time := by
  unfold World.get at h
  split at h
  · cases h
  · rename_i raw' _ stored
    cases h
    exact Strings.live_some stored
  · cases h

theorem World.resolve_ok {hash : Hash} {id : Identity} {revoked : Bool}
    (h : w.resolve turn hash = .ok (id, revoked)) : w.db.resolve hash = .ok (id, revoked) := by
  unfold World.resolve at h
  split at h
  · cases h
  · exact h

/-- The store never reports a revoked key as an error. -/
theorem World.resolve_error {hash : Hash} {err : AuthError} (h : w.resolve turn hash = .error err) :
    err ≠ .revoked := by
  unfold World.resolve at h
  split at h
  · cases h
    nofun
  · rw [(Database.resolve_error h).1]
    nofun

theorem World.insertKey_ok {key : NewKey} {id : String} {createdAt : Int}
    (h : (w.insertKey turn key).1 = .ok (id, createdAt)) :
    w.db.insertKey (NewKey.row key id createdAt) = some (w.insertKey turn key).2 := by
  unfold World.insertKey at h ⊢
  split at h
  · cases h
  · rename_i db inserted
    cases fate : turn.fate with
    | answered =>
        simp only [fate, RateLimit.Fate.err] at h
        cases h
        simp [inserted, Fate.executes]
    | unanswered err => simp [fate, RateLimit.Fate.err] at h
    | unexecuted err => simp [fate, RateLimit.Fate.err] at h

/-- An entry found in the cache now is as good as when it expires. -/
theorem Cached.get (conf : Configured d timeout) (h : Cached d timeout w) {key raw : String}
    {entry : CachedEntry} (found : w.get turn key = .ok raw)
    (decoded : d.resolver.unmarshal raw = some entry) :
    Known (w.serve turn (.auth (.get key))).2 key entry (w.now turn) (staleness d timeout) := by
  obtain ⟨expiry, stored, alive⟩ := World.get_ok found
  obtain ⟨time, rfl, known⟩ := h key raw expiry entry stored decoded
  obtain ⟨hash, row, h⟩ := (known.serve (.auth (.get key)) : Known (w.serve turn _).2 key entry time _)
  have soon := alive time rfl
  have nonneg := conf.staleness_nonneg
  refine ⟨hash, row, h.own, ?_, h.found, h.identity, h.revoked, ?_⟩
  · rw [World.serve_clock]
    omega
  · intro live t since
    have := h.live live t since
    omega

theorem World.read_known {hash : Hash} {id : Identity} {revoked : Bool}
    (h : w.resolve turn hash = .ok (id, revoked)) :
    Known (w.serve turn (.auth (.resolve hash))).2 (cacheKey hash) ⟨id, revoked⟩ (w.now turn) 0 := by
  obtain ⟨row, found, identity, rfl⟩ := Database.resolve_ok (World.resolve_ok h)
  refine ⟨hash, row, rfl, by rw [World.serve_clock, add_zero], found, identity, ?_, ?_⟩
  · intro revoked
    exact Option.isSome_iff_ne_none.mp revoked
  · intro live t since
    simp [since] at live

/-- The stage a process reaches is backed by the world its own step leaves. -/
theorem Stage.Backed.advance {stage : Stage} (conf : Configured d timeout)
    (cached : Cached d timeout w) (h : stage.Backed d timeout w) (op : KeyOp) :
    (stage.advance d (w.serve turn op).2 ⟨op, (w.serve turn op).1⟩).Backed d timeout
      (w.serve turn op).2 := by
  have kept : stage.Backed d timeout (w.serve turn op).2 := h.serve op
  cases op with
  | randRead n => exact kept
  | insertKey key =>
      show (stage.advance d _ ⟨.insertKey key, (w.insertKey turn key).1⟩).Backed d timeout _
      cases reply : (w.insertKey turn key).1 with
      | error err => exact kept
      | ok created =>
          have inserted := World.insertKey_ok reply
          exact ⟨_, Database.find_insertKey inserted, rfl⟩
  | auth op =>
      cases op with
      | get key =>
          show (stage.advance d _ ⟨.auth (.get key), w.get turn key⟩).Backed d timeout _
          cases reply : w.get turn key with
          | error err => exact kept
          | ok raw =>
              cases decoded : d.resolver.unmarshal raw with
              | none => simpa [Stage.advance, decoded] using kept
              | some entry =>
                  simp only [Stage.advance, decoded, Option.map_some, Option.getD_some,
                    World.serve_clock]
                  exact cached.get conf reply decoded
      | resolve hash =>
          show (stage.advance d _ ⟨.auth (.resolve hash), w.resolve turn hash⟩).Backed d timeout _
          cases reply : w.resolve turn hash with
          | error err => exact World.resolve_error reply
          | ok found =>
              simp only [Stage.advance, World.serve_clock]
              exact World.read_known reply
      | set key value ttl => exact kept
      | del key => exact kept
      | revokeKey id => exact kept

/-- A step keeps the cache sound, if a Set stores promptly what was read. -/
theorem Cached.serve (conf : Configured d timeout) (h : Cached d timeout w) (op : KeyOp)
    (sets : ∀ key value ttl, op = .auth (.set key value ttl) → ∃ entry time,
      value = d.resolver.marshal entry ∧ ttl = d.resolver.ttl ∧ Known w key entry time 0 ∧
      w.now turn ≤ time + timeout) : Cached d timeout (w.serve turn op).2 := by
  have old : ∀ key raw expiry entry, w.cache key = some (raw, expiry) →
      d.resolver.unmarshal raw = some entry → ∃ time, expiry = some time ∧
        Known (w.serve turn op).2 key entry time (staleness d timeout) := by
    intro key raw expiry entry stored decoded
    obtain ⟨time, same, known⟩ := h key raw expiry entry stored decoded
    exact ⟨time, same, known.serve op⟩
  cases op with
  | randRead n => exact old
  | insertKey key => exact old
  | auth op =>
      cases op with
      | get key => exact old
      | resolve hash => exact old
      | revokeKey id => exact old
      | del key =>
          intro other raw expiry entry stored decoded
          exact old other raw expiry entry (Strings.del_some stored) decoded
      | set key value ttl =>
          intro other raw expiry entry stored decoded
          obtain earlier | ⟨rfl, same⟩ := Strings.set_some stored
          · exact old other raw expiry entry earlier decoded
          · cases same
            obtain ⟨entry', time, rfl, rfl, known, soon⟩ := sets other _ _ rfl
            rw [conf.codec] at decoded
            cases decoded
            obtain ⟨hash, row, g⟩ : Known (w.serve turn (.auth (.set other
              (d.resolver.marshal entry) d.resolver.ttl))).2 other entry time 0 := known.serve _
            have past := g.past
            have patient := conf.patient
            refine ⟨w.now turn + d.resolver.ttl.toInt, by simp [expiryOf, conf.lasting], hash, row,
              g.own, ?_, g.found, g.identity, g.revoked, ?_⟩
            · rw [World.serve_clock]
              unfold staleness
              omega
            · intro live t since
              have := g.live live t since
              unfold staleness
              omega

end Growth

/-- The protocol, for programs of the resolver and the revoke handler alone. -/
def resolving (d : Deployment) : Protocol Op Op.Reply World Stage where
  advance w stage ev := stage.advance d w ⟨.auth ev.1, ev.2⟩
  legal stage ev := stage.legal d ⟨.auth ev.1, ev.2⟩

def Stage.Tells (key : String) (entry : CachedEntry) (stage : Stage) : Prop :=
  ∃ time, stage = .cached key entry time ∨ stage = .read key entry time

/-- A result of Resolve is what the last entry said. -/
def Concludes (key : String) (result : Except AuthError Identity) (stage : Stage) : Prop :=
  (∀ id, result = .ok id → stage.Tells key ⟨id, false⟩) ∧
    (result = .error .revoked → (∃ id, stage.Tells key ⟨id, true⟩) ∨ stage = .refused .revoked)

theorem concludes_verdict {key : String} {entry : CachedEntry} {stage : Stage}
    (told : stage.Tells key entry) : Concludes key (verdict entry.identity entry.revoked) stage := by
  obtain ⟨id, revoked⟩ := entry
  cases revoked with
  | true => exact ⟨nofun, fun _ => .inl ⟨id, told⟩⟩
  | false =>
      refine ⟨?_, nofun⟩
      intro own same
      cases same
      exact told

section Programs
variable (d : Deployment)

theorem resolveFromStore_follows (hash : Hash) :
    (d.resolver.resolveFromStore hash).Follows (resolving d) (Concludes (cacheKey hash)) .idle := by
  refine Program.Follows.perform_bind fun found => ⟨trivial, fun w => ?_⟩
  cases found with
  | error err =>
      refine ⟨nofun, ?_⟩
      intro same
      cases same
      exact .inr rfl
  | ok found =>
      obtain ⟨id, revoked⟩ := found
      refine Program.Follows.perform_bind fun failed => ⟨⟨_, _, rfl, rfl, rfl⟩, fun _ => ?_⟩
      have told : Stage.Tells (cacheKey hash) ⟨id, revoked⟩ (.read (cacheKey hash) ⟨id, revoked⟩ w.clock) :=
        ⟨w.clock, .inr rfl⟩
      exact concludes_verdict told

theorem resolve_follows (token : String) :
    (d.resolver.resolve token).Follows (resolving d)
      (Concludes (cacheKey (d.resolver.hashKey token))) .idle := by
  refine Program.Follows.perform_bind fun raw => ⟨trivial, fun w => ?_⟩
  cases raw with
  | error err => exact resolveFromStore_follows d _
  | ok raw =>
      simp only [resolving, Stage.advance]
      cases decoded : d.resolver.unmarshal raw with
      | none => exact resolveFromStore_follows d _
      | some entry => exact concludes_verdict ⟨w.clock, .inl rfl⟩

/-- How the presentation of a key ends. -/
def Presents (authorization : String) (outcome : Outcome) (stage : Stage) : Prop :=
  ∀ result, outcome = .presented (some result) → ∃ token, bearerToken authorization = some token ∧
    Concludes (cacheKey (d.resolver.hashKey token)) result stage

theorem present_follows (authorization : String) :
    (Job.program d (.present authorization)).Follows (lifecycle d) (Presents d authorization) .idle := by
  let ended (result : Option (Except AuthError Identity)) (stage : Stage) : Prop :=
    ∀ own, result = some own → ∃ token, bearerToken authorization = some token ∧
      Concludes (cacheKey (d.resolver.hashKey token)) own stage
  have inner : (resolveBearer d.resolver authorization).Follows (resolving d) ended .idle := by
    unfold resolveBearer
    cases sent : bearerToken authorization with
    | none => exact nofun
    | some token =>
        refine (resolve_follows d token).bind ?_
        rintro result stage concludes own same
        cases same
        exact ⟨token, sent, concludes⟩
  have lifted : (overKeys (resolveBearer d.resolver authorization)).Follows (lifecycle d) ended .idle :=
    inner.lift (fun _ _ _ _ => rfl) fun _ _ _ legal => legal
  refine lifted.bind ?_
  rintro result stage concluded own same
  cases same
  exact concluded own rfl

/-- No end is excluded. -/
def anyOutcome (_ : Outcome) (_ : Stage) : Prop := True

theorem revoke_follows (pathID : String) :
    (Job.program d (.revoke pathID)).Follows (lifecycle d) anyOutcome .idle := by
  have inner : (handleRevokeKey d.parse pathID).Follows (resolving d) (fun _ _ => True) .idle := by
    unfold handleRevokeKey
    split
    · trivial
    · refine Program.Follows.perform_bind fun reply => ⟨trivial, fun _ => ?_⟩
      cases reply with
      | ok hash => exact fun _ => ⟨trivial, fun _ => trivial⟩
      | error err => cases err <;> trivial
  have lifted : (overKeys (handleRevokeKey d.parse pathID)).Follows (lifecycle d)
      (fun _ _ => True) .idle := inner.lift (fun _ _ _ _ => rfl) fun _ _ _ legal => legal
  exact lifted.bind fun _ _ _ => trivial

/-- How an issue request ends that answers 201. -/
def Issues (req : IssueKeyRequest) (outcome : Outcome) (stage : Stage) : Prop :=
  ∀ response, outcome = .issued (.created response) → response.key ≠ "" ∧ ∃ teamID,
    d.parse req.teamID = some teamID ∧ stage = .inserted
      { teamID, hash := d.resolver.hashKey response.key, keyPrefix := response.keyPrefix
        label := req.label, allowedModels := req.allowedModels, tpmLimit := req.tpmLimit }
      response.id response.createdAt

theorem keyPrefixLabel_append_ne (text : String) : keyPrefixLabel ++ text ≠ "" := by
  intro empty
  have chars := congrArg String.toList empty
  simp [keyPrefixLabel] at chars

theorem issue_follows (req : IssueKeyRequest) :
    (Job.program d (.issue (.ok req))).Follows (lifecycle d) (Issues d req) .idle := by
  unfold Job.program handleIssueKey
  simp only
  cases parsed : d.parse req.teamID with
  | none => exact nofun
  | some teamID =>
      refine Program.Follows.perform_bind fun raw => ⟨trivial, fun _ => ?_⟩
      cases raw with
      | error err => exact nofun
      | ok raw =>
          refine Program.Follows.perform_bind fun row => ⟨trivial, fun _ => ?_⟩
          cases row with
          | error err => exact nofun
          | ok created =>
              rintro response same
              cases same
              exact ⟨keyPrefixLabel_append_ne _, teamID, parsed, rfl⟩

theorem job_follows (job : Job) : (Job.program d job).Follows (lifecycle d) anyOutcome .idle := by
  cases job with
  | present authorization => exact (present_follows d authorization).mono fun _ _ _ => trivial
  | revoke pathID => exact revoke_follows d pathID
  | issue body =>
      cases body with
      | error err => trivial
      | ok req => exact (issue_follows d req).mono fun _ _ _ => trivial

end Programs

/-- The invariant of every run: stages tell the truth and the cache is sound. -/
structure Sound (d : Deployment) (timeout : Int) (pool : KeyPool) : Prop where
  disciplined : (keys d).Disciplined anyOutcome pool
  backed : ∀ p ∈ pool.processes, p.state.Backed d timeout pool.shared
  cached : Cached d timeout pool.shared

/-- Steps of the gateway that all cache promptly. -/
abbrev Proceeds (d : Deployment) (timeout : Int) : KeyPool → KeyPool → Prop :=
  (keys d).Reaches fun pool move => prompt timeout pool move = true

section Runs
variable {d : Deployment} {timeout : Int} {first pool next : KeyPool} {move : Move Job Turn}

theorem Sound.start (fresh : first.processes = [] ∧ first.shared.cache = fun _ => none) :
    Sound d timeout first := by
  refine ⟨?_, ?_, ?_⟩
  · simp [System.Disciplined, fresh.1]
  · simp [fresh.1]
  · intro key raw expiry entry stored
    simp [fresh.2] at stored

theorem Sound.step (conf : Configured d timeout) (h : Sound d timeout pool)
    (ok : prompt timeout pool move = true) (moved : (keys d).step pool move = some next) :
    Sound d timeout next := by
  refine ⟨h.disciplined.step (job_follows d) moved, ?_, ?_⟩
  · cases move with
    | start job =>
        cases moved
        intro p member
        rcases List.mem_append.mp member with old | new
        · exact h.backed p old
        · rw [List.mem_singleton.mp new]
          trivial
    | act i turn =>
        obtain ⟨op, continue_, stage, found, rfl⟩ := System.act_cases moved
        intro p listed
        rcases List.mem_or_eq_of_mem_set listed with old | rfl
        · exact (h.backed p old).serve op
        · exact (h.backed _ (List.mem_of_getElem? found)).advance conf h.cached op
  · cases move with
    | start job =>
        cases moved
        exact h.cached
    | act i turn =>
        obtain ⟨op, continue_, stage, found, rfl⟩ := System.act_cases moved
        refine h.cached.serve conf op ?_
        rintro key value ttl rfl
        have member := List.mem_of_getElem? found
        obtain ⟨entry, time, rfl, rfl, rfl⟩ := (h.disciplined _ member none).1
        refine ⟨entry, time, rfl, rfl, h.backed _ member, ?_⟩
        simpa [prompt, found] using ok

theorem Sound.proceeds (conf : Configured d timeout) (h : Sound d timeout first)
    (reached : Proceeds d timeout first pool) : Sound d timeout pool :=
  reached.invariant h fun _ _ _ inv ok moved => inv.step conf ok moved

theorem step_clock (moved : (keys d).step pool move = some next) :
    pool.shared.clock ≤ next.shared.clock := by
  cases move with
  | start job =>
      cases moved
      exact le_refl _
  | act i turn =>
      obtain ⟨op, continue_, stage, found, rfl⟩ := System.act_cases moved
      show _ ≤ (pool.shared.serve turn op).2.clock
      rw [World.serve_clock]
      exact le_max_left _ _

theorem step_grows (moved : (keys d).step pool move = some next) :
    pool.shared.db.Grows next.shared.clock next.shared.db := by
  cases move with
  | start job =>
      cases moved
      exact .refl _ _
  | act i turn =>
      obtain ⟨op, continue_, stage, found, rfl⟩ := System.act_cases moved
      show pool.shared.db.Grows (pool.shared.serve turn op).2.clock (pool.shared.serve turn op).2.db
      rw [World.serve_clock]
      exact pool.shared.serve_grows turn op

/-- What a stage tells was learned no earlier than `start`. -/
def Stage.Since (start : Int) : Stage → Prop
  | .cached _ _ time | .read _ _ time => start ≤ time
  | _ => True

theorem Stage.Since.advance {start : Int} {w : World} {stage : Stage} (h : stage.Since start)
    (later : start ≤ w.clock) (ev : Event KeyOp KeyOp.Reply) : (stage.advance d w ev).Since start := by
  unfold Stage.advance
  split
  · cases d.resolver.unmarshal _ with
    | none => exact h
    | some entry => exact later
  · exact later
  · trivial
  · trivial
  · exact h

/-- A request that presents a key, from its start to its end: it concludes from what it
learned since it started. -/
theorem presented {started : KeyPool} {authorization : String}
    {result : Option (Except AuthError Identity)} {m : Stage} (conf : Configured d timeout)
    (sound : Sound d timeout pool)
    (start : (keys d).step pool (.start (.present authorization)) = some started)
    (later : Proceeds d timeout started next)
    (returned : next.processes[pool.processes.length]? = some ⟨.pure (.presented result), m⟩) :
    Sound d timeout next ∧ Presents d authorization (.presented result) m ∧
      m.Since pool.shared.clock := by
  let kept (now : KeyPool) : Prop := Sound d timeout now ∧ pool.shared.clock ≤ now.shared.clock
  have preserve : ∀ now move next, kept now → prompt timeout now move = true →
      (keys d).step now move = some next → kept next :=
    fun _ _ _ inv ok moved => ⟨inv.1.step conf ok moved, inv.2.trans (step_clock moved)⟩
  have initial : kept started := preserve _ _ _ ⟨sound, le_refl _⟩ rfl start
  have concluding := later.process_induction
    (Q := fun p => p.program.Follows (lifecycle d) (Presents d authorization) p.state ∧
      p.state.Since pool.shared.clock)
    initial (System.start_process start) ⟨present_follows d authorization, trivial⟩ preserve
  obtain ⟨inv, p, same, follows, since⟩ := concluding <| by
    rintro now turn op continue_ stage inv - ⟨follows, since⟩
    refine ⟨(follows _).2 _, since.advance ?_ _⟩
    show _ ≤ (now.shared.serve turn op).2.clock
    rw [World.serve_clock]
    exact inv.2.trans (le_max_left _ _)
  rw [returned] at same
  cases same
  exact ⟨inv.1, follows, since⟩

theorem Stage.Backed.tells {w : World} {stage : Stage} {key : String} {entry : CachedEntry} {start : Int}
    (conf : Configured d timeout) (h : stage.Backed d timeout w) (since : stage.Since start)
    (told : stage.Tells key entry) :
    ∃ time, start ≤ time ∧ Known w key entry time (staleness d timeout) := by
  obtain ⟨time, rfl | rfl⟩ := told
  · exact ⟨time, since, h⟩
  · obtain ⟨hash, row, g⟩ := h
    have nonneg := conf.staleness_nonneg
    have past := g.past
    refine ⟨time, since, hash, row, g.own, by omega, g.found, g.identity, g.revoked, ?_⟩
    intro live t revoked
    have := g.live live t revoked
    omega

/-- Whoever is let in is the owner of the key that was presented, and a revoked key is let in
no longer than the request timeout and the cache TTL after its revocation. This holds for any
interleaving of requests, whatever operations of Redis and Postgres fail. -/
theorem admitted_identity_sound {before started : KeyPool} {authorization : String}
    {result : Option (Except AuthError Identity)} {m : Stage} {id : Identity}
    (conf : Configured d timeout)
    (fresh : first.processes = [] ∧ first.shared.cache = fun _ => none)
    (reached : Proceeds d timeout first before)
    (start : (keys d).step before (.start (.present authorization)) = some started)
    (later : Proceeds d timeout started pool)
    (returned : pool.processes[before.processes.length]? = some ⟨.pure (.presented result), m⟩)
    (admits : gate result = .admitted id) :
    ∃ token row, bearerToken authorization = some token ∧
      pool.shared.db.find (d.resolver.hashKey token) = some row ∧
      pool.shared.db.identity row = some id ∧
      ∀ t, row.revokedAt = some t → before.shared.clock ≤ t + staleness d timeout := by
  obtain ⟨sound, presents, since⟩ :=
    presented conf ((Sound.start fresh).proceeds conf reached) start later returned
  rw [gate_admitted] at admits
  subst admits
  obtain ⟨token, sent, concludes⟩ := presents _ rfl
  have told := concludes.1 id rfl
  have backed := sound.backed _ (List.mem_of_getElem? returned)
  obtain ⟨time, early, hash, row, g⟩ := backed.tells conf since told
  have same : d.resolver.hashKey token = hash := cacheKey_inj g.own
  refine ⟨token, row, sent, same ▸ g.found, g.identity, ?_⟩
  intro t revoked
  have := g.live rfl t revoked
  omega

end Runs

def identityCacheTTL : Providers.Duration := 300000000000

/-- The wiring of main: the JSON codec and the TTL of five minutes. -/
def gatewayKeys (hashKey : String → Hash) (parse : String → Option String) : Deployment where
  resolver := { hashKey, marshal := marshalEntry, unmarshal := unmarshalEntry, ttl := identityCacheTTL }
  parse := parse

theorem gatewayKeys_configured (hashKey : String → Hash) (parse : String → Option String)
    {timeout : Int} (patient : 0 ≤ timeout) : Configured (gatewayKeys hashKey parse) timeout := by
  refine ⟨?_, show 0 < identityCacheTTL by decide +kernel, patient⟩
  intro entry
  simp only [gatewayKeys]
  exact unmarshal_marshalEntry entry

/-- One org, one team, and a deployment that tells keys apart by their length. -/
def smallTeam (rows : List KeyRow) (ids : (rows.map KeyRow.id).Nodup)
    (hashes : (rows.map KeyRow.hash).Nodup) (own : ∀ row ∈ rows, row.teamID = "search") : World where
  clock := 0
  cache := fun _ => none
  db :=
    { orgs := [⟨"acme", 1000⟩], teams := [⟨"search", "acme", 500⟩], keys := rows
      orgIDs := by simp, teamIDs := by simp, keyIDs := ids, hashes := hashes, teamOrg := by simp
      keyTeam := fun row member => ⟨_, List.mem_cons_self, (own row member).symm⟩ }

def byLength : Deployment := gatewayKeys (fun key => [UInt8.ofNat key.length]) some

def turn (now : Int) (fate : Fate) : Turn where
  now := now
  fate := fate
  random := fun n => .ok ⟨List.replicate n 0, List.length_replicate⟩
  newID := "k2"

def outcomeOf (pool : KeyPool) (i : Nat) : Option Outcome :=
  match pool.processes[i]? with
  | some ⟨.pure outcome, _⟩ => some outcome
  | _ => none

theorem process_of_outcome {pool : KeyPool} {i : Nat} {outcome : Outcome}
    (h : outcomeOf pool i = some outcome) : ∃ m, pool.processes[i]? = some ⟨.pure outcome, m⟩ := by
  unfold outcomeOf at h
  split at h
  · rename_i found
    cases h
    exact ⟨_, found⟩
  · cases h

def oneKeyWorld : World :=
  smallTeam [⟨"k1", "search", [3], "abc", "", ["chat"], none, none, 0⟩] (by simp) (by simp) (by simp)

def presentOne : Option KeyPool := (keys byLength).step ⟨oneKeyWorld, []⟩ (.start (.present "Bearer abc"))

/-- The key is read from the table, then it is revoked, and only then what was read is cached. -/
def overtaken (started : KeyPool) : Option KeyPool :=
  (keys byLength).run (prompt 60) started
    [.act 0 (turn 1 .answered), .act 0 (turn 2 .answered), .start (.revoke "k1"),
      .act 1 (turn 10 .answered), .act 0 (turn 20 .answered)]

theorem overtaken_sound :
    ∃ started pool id, presentOne = some started ∧ overtaken started = some pool ∧
      outcomeOf pool 0 = some (.presented (some (.ok id))) ∧
      ∃ row, pool.shared.db.find [3] = some row ∧ pool.shared.db.identity row = some id ∧
        ∀ t, row.revokedAt = some t → 0 ≤ t + staleness byLength 60 := by
  have facts : (presentOne.bind fun started => (overtaken started).map fun pool =>
      outcomeOf pool 0) =
      some (some (.presented (some (.ok ⟨"acme", "search", "k1", ["chat"], 1000, 500, none⟩)))) := by
    decide +kernel
  obtain ⟨started, first, rest⟩ := Option.bind_eq_some_iff.mp facts
  obtain ⟨pool, second, shown⟩ := Option.map_eq_some_iff.mp rest
  obtain ⟨m, returned⟩ := process_of_outcome shown
  obtain ⟨token, row, sent, found, identity, bound⟩ := admitted_identity_sound
    (gatewayKeys_configured _ _ (by decide)) ⟨rfl, rfl⟩ .refl first (System.Reaches.of_run second)
    returned rfl
  cases sent
  exact ⟨started, pool, _, first, second, shown, row, found, identity, bound⟩

section Runs
variable {d : Deployment} {timeout : Int} {first pool next : KeyPool} {move : Move Job Turn}

/-- No operation fails in a step. -/
def untroubled : Move Job Turn → Bool
  | .start _ => true
  | .act _ turn => decide (turn.fate = .answered)

/-- The table answers a question for `hash` with a row. -/
def Answered (hash : Hash) : Event KeyOp KeyOp.Reply → Prop
  | ⟨.auth (.resolve asked), found⟩ => asked = hash → ∃ entry, found = .ok entry
  | _ => True

/-- The key is known: it passes, or it is revoked. -/
def Decided (result : Except AuthError Identity) : Prop :=
  (∃ id, result = .ok id) ∨ result = .error .revoked

theorem decided_verdict (id : Identity) (revoked : Bool) : Decided (verdict id revoked) := by
  cases revoked with
  | true => exact .inr rfl
  | false => exact .inl ⟨id, rfl⟩

theorem resolveFromStore_decided (c : CachingResolver) (hash : Hash) :
    (c.resolveFromStore hash).Given (fun ev => Answered hash ⟨.auth ev.1, ev.2⟩) Decided := by
  refine Program.Given.perform_bind fun found answered => ?_
  obtain ⟨⟨id, revoked⟩, rfl⟩ := answered rfl
  exact fun _ _ => decided_verdict id revoked

theorem resolve_decided (c : CachingResolver) (token : String) :
    (c.resolve token).Given (fun ev => Answered (c.hashKey token) ⟨.auth ev.1, ev.2⟩) Decided := by
  refine Program.Given.perform_bind fun raw _ => ?_
  cases raw with
  | error err => exact resolveFromStore_decided c _
  | ok raw =>
      simp only
      split
      · exact decided_verdict _ _
      · exact resolveFromStore_decided c _

theorem present_decided (d : Deployment) {authorization token : String}
    (sent : bearerToken authorization = some token) :
    (Job.program d (.present authorization)).Given (Answered (d.resolver.hashKey token))
      fun outcome => ∃ result, outcome = .presented (some result) ∧ Decided result := by
  have inner : (resolveBearer d.resolver authorization).Given
      (fun ev => Answered (d.resolver.hashKey token) ⟨.auth ev.1, ev.2⟩)
      fun result => ∃ own, result = some own ∧ Decided own := by
    rw [resolveBearer, sent]
    exact (resolve_decided d.resolver token).bind fun result decided => ⟨result, rfl, decided⟩
  have lifted : (overKeys (resolveBearer d.resolver authorization)).Given
      (Answered (d.resolver.hashKey token)) fun result => ∃ own, result = some own ∧ Decided own :=
    inner.lift fun _ _ answered => answered
  refine lifted.bind ?_
  rintro result ⟨own, rfl, decided⟩
  exact ⟨own, rfl, decided⟩

theorem World.serve_answered {w : World} {turn : Turn} {hash : Hash} {row : KeyRow}
    (found : w.db.find hash = some row) (healthy : turn.fate = .answered) (op : KeyOp) :
    Answered hash ⟨op, (w.serve turn op).1⟩ := by
  cases op with
  | auth op =>
      cases op with
      | resolve asked =>
          rintro rfl
          show ∃ entry, w.resolve turn asked = .ok entry
          obtain ⟨id, own⟩ := Option.isSome_iff_exists.mp
            (Database.identity_isSome (Database.find_mem found))
          refine ⟨(id, row.revokedAt.isSome), ?_⟩
          simp only [World.resolve, healthy, RateLimit.Fate.err]
          exact Database.resolve_of_find found own
      | _ => trivial
  | _ => trivial

/-- An issue request that answers 201 leaves the key it hands out in the table. -/
theorem issued {running answered : KeyPool} {req : IssueKeyRequest} {response : IssueKeyResponse}
    {m : Stage} (conf : Configured d timeout) (sound : Sound d timeout pool)
    (request : (keys d).step pool (.start (.issue (.ok req))) = some running)
    (runs : Proceeds d timeout running answered)
    (done : answered.processes[pool.processes.length]? =
      some ⟨.pure (.issued (.created response)), m⟩) :
    Sound d timeout answered ∧ response.key ≠ "" ∧ ∃ teamID row,
      d.parse req.teamID = some teamID ∧
      answered.shared.db.find (d.resolver.hashKey response.key) = some row ∧
      { row with revokedAt := none } = NewKey.row
        { teamID, hash := d.resolver.hashKey response.key, keyPrefix := response.keyPrefix
          label := req.label, allowedModels := req.allowedModels, tpmLimit := req.tpmLimit }
        response.id response.createdAt := by
  have preserve : ∀ now move next, Sound d timeout now → prompt timeout now move = true →
      (keys d).step now move = some next → Sound d timeout next :=
    fun _ _ _ inv ok moved => inv.step conf ok moved
  obtain ⟨inv, p, same, follows⟩ := runs.process_invariant
    (Q := fun p => p.program.Follows (lifecycle d) (Issues d req) p.state)
    (preserve _ _ _ sound rfl request) (System.start_process request) (issue_follows d req) preserve
    fun now turn op continue_ stage _ follows => (follows _).2 _
  rw [done] at same
  cases same
  obtain ⟨nonempty, teamID, parsed, rfl⟩ := follows response rfl
  obtain ⟨row, found, fields⟩ := inv.backed _ (List.mem_of_getElem? done)
  exact ⟨inv, nonempty, teamID, row, parsed, found, fields⟩

/-- The row of a key, whether or not it has been revoked. -/
def Recorded (hash : Hash) (fields : KeyRow) (pool : KeyPool) : Prop :=
  ∃ row, pool.shared.db.find hash = some row ∧ { row with revokedAt := none } = fields

theorem Recorded.step {hash : Hash} {fields : KeyRow} (h : Recorded hash fields pool)
    (moved : (keys d).step pool move = some next) : Recorded hash fields next := by
  obtain ⟨row, found, same⟩ := h
  obtain ⟨row', found', ages⟩ := (step_grows moved).rows found
  refine ⟨row', found', ?_⟩
  cases ages with
  | kept => exact same
  | revoked live => exact same

/-- Presenting a recorded key while nothing fails leads to a decision about it. -/
theorem presented_decided {started : KeyPool} {authorization token : String} {fields : KeyRow}
    {result : Option (Except AuthError Identity)} {m : Stage}
    (sent : bearerToken authorization = some token)
    (recorded : Recorded (d.resolver.hashKey token) fields pool)
    (start : (keys d).step pool (.start (.present authorization)) = some started)
    (later : (keys d).Reaches (fun pool move => prompt timeout pool move = true ∧
      untroubled move = true) started next)
    (returned : next.processes[pool.processes.length]? = some ⟨.pure (.presented result), m⟩) :
    Recorded (d.resolver.hashKey token) fields next ∧ ∃ own, result = some own ∧ Decided own := by
  have concluding := later.process_induction
    (Q := fun p => p.program.Given (Answered (d.resolver.hashKey token))
      fun outcome => ∃ result, outcome = .presented (some result) ∧ Decided result)
    (recorded.step start) (System.start_process start) (present_decided d sent)
    fun _ _ _ inv _ moved => inv.step moved
  obtain ⟨inv, p, same, given⟩ := concluding <| by
    rintro now turn op continue_ stage ⟨row, found, -⟩ ⟨-, healthy⟩ given
    exact given _ (World.serve_answered found (of_decide_eq_true healthy) op)
  rw [returned] at same
  cases same
  obtain ⟨own, same, decided⟩ := given
  cases same
  exact ⟨inv, own, rfl, decided⟩

/-- A key works from the moment it is handed out: whoever presents the key of a 201 response
afterwards, while nothing fails, is let in as the key, team, models and limit it was issued
for, unless the key has been revoked. -/
theorem issued_key_admits {before running answered started : KeyPool} {req : IssueKeyRequest}
    {response : IssueKeyResponse} {result : Option (Except AuthError Identity)} {m m' : Stage}
    (conf : Configured d timeout)
    (fresh : first.processes = [] ∧ first.shared.cache = fun _ => none)
    (reached : Proceeds d timeout first before)
    (request : (keys d).step before (.start (.issue (.ok req))) = some running)
    (runs : Proceeds d timeout running answered)
    (done : answered.processes[before.processes.length]? =
      some ⟨.pure (.issued (.created response)), m⟩)
    (start : (keys d).step answered (.start (.present (bearerScheme ++ response.key))) = some started)
    (later : (keys d).Reaches (fun pool move => prompt timeout pool move = true ∧
      untroubled move = true) started pool)
    (returned : pool.processes[answered.processes.length]? = some ⟨.pure (.presented result), m'⟩) :
    ∃ row id, pool.shared.db.find (d.resolver.hashKey response.key) = some row ∧
      pool.shared.db.identity row = some id ∧ id.keyID = response.id ∧
      d.parse req.teamID = some id.teamID ∧ id.allowedModels = req.allowedModels ∧
      id.keyTPMLimit = req.tpmLimit ∧
      (gate result = .admitted id ∨ result = some (.error .revoked) ∧ row.revokedAt ≠ none) := by
  obtain ⟨sound, nonempty, teamID, stored, parsed, there, fields⟩ :=
    issued conf ((Sound.start fresh).proceeds conf reached) request runs done
  have sent := bearerToken_scheme nonempty
  obtain ⟨⟨row, found, same⟩, own, rfl, decided⟩ :=
    presented_decided sent ⟨stored, there, fields⟩ start later returned
  obtain ⟨final, presents, since⟩ :=
    presented conf sound start (later.mono fun _ _ both => both.1) returned
  have backed := final.backed _ (List.mem_of_getElem? returned)
  obtain ⟨token, sent', concludes⟩ := presents own rfl
  rw [sent] at sent'
  cases sent'
  have behind : ∀ entry, m'.Tells (cacheKey (d.resolver.hashKey response.key)) entry →
      pool.shared.db.identity row = some entry.identity ∧
        (entry.revoked = true → row.revokedAt ≠ none) := by
    intro entry told
    obtain ⟨time, -, hash, row', g⟩ := backed.tells conf since told
    rw [← cacheKey_inj g.own] at g
    cases found.symm.trans g.found
    exact ⟨g.identity, g.revoked⟩
  obtain ⟨id, identity⟩ := Option.isSome_iff_exists.mp
    (Database.identity_isSome (Database.find_mem found))
  obtain ⟨key, team, models, limit⟩ := Database.identity_fields identity
  have columns : row.id = response.id ∧ row.teamID = teamID ∧ row.allowedModels = req.allowedModels ∧
      row.tpmLimit = req.tpmLimit := by
    refine ⟨?_, ?_, ?_, ?_⟩
    · exact congrArg KeyRow.id same
    · exact congrArg KeyRow.teamID same
    · exact congrArg KeyRow.allowedModels same
    · exact congrArg KeyRow.tpmLimit same
  obtain ⟨rowKey, rowTeam, rowModels, rowLimit⟩ := columns
  refine ⟨row, id, found, identity, key.trans rowKey, ?_, models.trans rowModels,
    limit.trans rowLimit, ?_⟩
  · rw [parsed, team, rowTeam]
  · rcases decided with ⟨admitted, rfl⟩ | rfl
    · have told := (behind _ (concludes.1 admitted rfl)).1
      rw [identity] at told
      cases told
      exact .inl rfl
    · refine .inr ⟨rfl, ?_⟩
      rcases concludes.2 rfl with ⟨known, told⟩ | refused
      · exact (behind _ told).2 rfl
      · subst refused
        exact absurd rfl backed

end Runs

def newKey : IssueKeyRequest := ⟨"search", "ci", ["chat"], some 50⟩

def emptyWorld : World := smallTeam [] (by simp) (by simp) (by simp)

def issueOne : Option KeyPool :=
  ((keys byLength).step ⟨emptyWorld, []⟩ (.start (.issue (.ok newKey)))).bind fun running =>
    (keys byLength).run (prompt 60) running [.act 0 (turn 1 .answered), .act 0 (turn 2 .answered)]

/-- The key that 24 zero bytes make. -/
def zeroKey : String := "sk-vk-AAAAAAAAAAAAAAAAAAAAAAAAAAAAAAAA"

def presentNew (answered : KeyPool) : Option KeyPool :=
  (keys byLength).step answered (.start (.present (bearerScheme ++ zeroKey)))

def lookUp (started : KeyPool) : Option KeyPool :=
  (keys byLength).run (fun pool move => prompt 60 pool move && untroubled move) started
    [.act 1 (turn 3 .answered), .act 1 (turn 4 .answered), .act 1 (turn 5 .answered)]

theorem issueOne_admits :
    ∃ answered started pool id, issueOne = some answered ∧ presentNew answered = some started ∧
      lookUp started = some pool ∧ outcomeOf pool 1 = some (.presented (some (.ok id))) ∧
      ∃ row, pool.shared.db.find [38] = some row ∧ pool.shared.db.identity row = some id ∧
        id.keyID = "k2" ∧ id.teamID = "search" ∧ id.keyTPMLimit = some 50 := by
  have facts : (issueOne.bind fun answered => (presentNew answered).bind fun started =>
      (lookUp started).map fun pool =>
        (answered.processes.length, outcomeOf answered 0, outcomeOf pool 1)) =
      some (1, some (.issued (.created ⟨"k2", zeroKey, "sk-vk-AA", 2⟩)),
        some (.presented (some (.ok ⟨"acme", "search", "k2", ["chat"], 1000, 500, some 50⟩)))) := by
    decide +kernel
  obtain ⟨answered, first, rest⟩ := Option.bind_eq_some_iff.mp facts
  obtain ⟨started, second, rest⟩ := Option.bind_eq_some_iff.mp rest
  obtain ⟨pool, third, all⟩ := Option.map_eq_some_iff.mp rest
  obtain ⟨length, both⟩ := Prod.mk.inj all
  obtain ⟨created, shown⟩ := Prod.mk.inj both
  obtain ⟨running, begun, ran⟩ := Option.bind_eq_some_iff.mp first
  obtain ⟨m, done⟩ := process_of_outcome created
  obtain ⟨m', returned⟩ := process_of_outcome shown
  rw [← length] at returned
  have later := (System.Reaches.of_run third).mono fun _ _ ok => Bool.and_eq_true_iff.mp ok
  obtain ⟨row, id, found, identity, key, team, -, limit, admitted | ⟨revoked, -⟩⟩ :=
    issued_key_admits (gatewayKeys_configured _ _ (by decide)) ⟨rfl, rfl⟩ .refl begun
      (System.Reaches.of_run ran) done second later returned
  · cases admitted
    exact ⟨answered, started, pool, _, first, second, third, shown, row, found, identity, key,
      (Option.some.inj team).symm, limit⟩
  · cases revoked

end Gateway.Auth.Lifecycle
