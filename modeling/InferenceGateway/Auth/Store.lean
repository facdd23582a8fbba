import InferenceGateway.Auth.Resolver

/-! The tables behind virtual keys and the three statements of auth.Store on them. Times are
nanoseconds of the database clock. -/
namespace Gateway.Auth

structure Org where
  id : String
  tpmLimit : Int64
  deriving DecidableEq

structure Team where
  id : String
  orgID : String
  tpmLimit : Int64
  deriving DecidableEq

structure KeyRow where
  id : String
  teamID : String
  hash : Hash
  keyPrefix : String
  label : String
  allowedModels : List String
  tpmLimit : Option Int64
  revokedAt : Option Int := none
  createdAt : Int
  deriving DecidableEq

/-- orgs, teams and virtual_keys with their primary keys, the unique column and the foreign
keys. -/
structure Database where
  orgs : List Org
  teams : List Team
  keys : List KeyRow
  orgIDs : (orgs.map Org.id).Nodup
  teamIDs : (teams.map Team.id).Nodup
  keyIDs : (keys.map KeyRow.id).Nodup
  hashes : (keys.map KeyRow.hash).Nodup
  teamOrg : ∀ team ∈ teams, ∃ org ∈ orgs, org.id = team.orgID
  keyTeam : ∀ row ∈ keys, ∃ team ∈ teams, team.id = row.teamID

namespace Database

def find (db : Database) (hash : Hash) : Option KeyRow := db.keys.find? fun row => row.hash = hash

def team (db : Database) (id : String) : Option Team := db.teams.find? fun team => team.id = id

def org (db : Database) (id : String) : Option Org := db.orgs.find? fun org => org.id = id

/-- A row of virtual_keys joined with its team and org. -/
def identity (db : Database) (row : KeyRow) : Option Identity := do
  let team ← db.team row.teamID
  let org ← db.org team.orgID
  some { orgID := team.orgID, teamID := row.teamID, keyID := row.id
         allowedModels := row.allowedModels, orgTPMLimit := org.tpmLimit
         teamTPMLimit := team.tpmLimit, keyTPMLimit := row.tpmLimit }

/-- The SELECT of Store.Resolve. -/
def resolve (db : Database) (hash : Hash) : Except AuthError (Identity × Bool) :=
  match (db.find hash).bind fun row => (db.identity row).map fun id => (id, row.revokedAt.isSome) with
  | some found => .ok found
  | none => .error .notFound

/-- The INSERT of Store.IssueKey: a missing team, a taken id or a taken hash fails it. -/
def insertKey (db : Database) (row : KeyRow) : Option Database :=
  if h : (∃ team ∈ db.teams, team.id = row.teamID) ∧ row.id ∉ db.keys.map KeyRow.id ∧
      row.hash ∉ db.keys.map KeyRow.hash then
    some { db with
      keys := row :: db.keys
      keyIDs := List.nodup_cons.mpr ⟨h.2.1, db.keyIDs⟩
      hashes := List.nodup_cons.mpr ⟨h.2.2, db.hashes⟩
      keyTeam := fun other member => by
        rcases List.mem_cons.mp member with rfl | old
        · exact h.1
        · exact db.keyTeam other old }
  else none

end Database

def KeyRow.revokeIf (id : String) (now : Int) (row : KeyRow) : KeyRow :=
  if row.id = id ∧ row.revokedAt = none then { row with revokedAt := some now } else row

section Revoke
variable (id : String) (now : Int) (row : KeyRow)

theorem KeyRow.revokeIf_id : (row.revokeIf id now).id = row.id := by
  unfold revokeIf
  split <;> rfl

theorem KeyRow.revokeIf_hash : (row.revokeIf id now).hash = row.hash := by
  unfold revokeIf
  split <;> rfl

theorem KeyRow.revokeIf_teamID : (row.revokeIf id now).teamID = row.teamID := by
  unfold revokeIf
  split <;> rfl

end Revoke

namespace Database

/-- The table after the UPDATE of Store.RevokeKey. -/
def revoke (db : Database) (id : String) (now : Int) : Database where
  orgs := db.orgs
  teams := db.teams
  keys := db.keys.map (KeyRow.revokeIf id now)
  orgIDs := db.orgIDs
  teamIDs := db.teamIDs
  keyIDs := by
    rw [List.map_map]
    simpa only [Function.comp_def, KeyRow.revokeIf_id] using db.keyIDs
  hashes := by
    rw [List.map_map]
    simpa only [Function.comp_def, KeyRow.revokeIf_hash] using db.hashes
  teamOrg := db.teamOrg
  keyTeam := by
    intro row member
    obtain ⟨old, listed, rfl⟩ := List.mem_map.mp member
    rw [KeyRow.revokeIf_teamID]
    exact db.keyTeam old listed

/-- Store.RevokeKey: the hash of the row it revoked. -/
def revokeKey (db : Database) (id : String) (now : Int) : Except AuthError Hash × Database :=
  match db.keys.find? fun row => row.id = id ∧ row.revokedAt = none with
  | some row => (.ok row.hash, db.revoke id now)
  | none => (.error .notFound, db)

variable {db : Database} {row : KeyRow} {hash : Hash}

/-- The foreign keys make the join total. -/
theorem identity_isSome (h : row ∈ db.keys) : (db.identity row).isSome = true := by
  obtain ⟨team, listed, same⟩ := db.keyTeam row h
  cases joined : db.team row.teamID with
  | none =>
      have := List.find?_eq_none.mp joined team listed
      simp [same] at this
  | some own =>
      obtain ⟨org, member, equal⟩ := db.teamOrg own (List.mem_of_find?_eq_some joined)
      cases found : db.org own.orgID with
      | none =>
          have := List.find?_eq_none.mp found org member
          simp [equal] at this
      | some org => simp [identity, joined, found]

theorem identity_fields {id : Identity} (h : db.identity row = some id) :
    id.keyID = row.id ∧ id.teamID = row.teamID ∧ id.allowedModels = row.allowedModels ∧
      id.keyTPMLimit = row.tpmLimit := by
  obtain ⟨team, -, rest⟩ := Option.bind_eq_some_iff.mp h
  obtain ⟨org, -, same⟩ := Option.bind_eq_some_iff.mp rest
  cases same
  exact ⟨rfl, rfl, rfl, rfl⟩

theorem find_hash (h : db.find hash = some row) : row.hash = hash := by
  simpa using List.find?_some h

theorem find_mem (h : db.find hash = some row) : row ∈ db.keys := List.mem_of_find?_eq_some h

/-- Resolve answers from the row with the hash it is asked for. -/
theorem resolve_ok {id : Identity} {revoked : Bool} (h : db.resolve hash = .ok (id, revoked)) :
    ∃ row, db.find hash = some row ∧ db.identity row = some id ∧ revoked = row.revokedAt.isSome := by
  unfold resolve at h
  split at h
  · rename_i found joined
    cases h
    obtain ⟨row, here, rest⟩ := Option.bind_eq_some_iff.mp joined
    obtain ⟨own, same, pair⟩ := Option.map_eq_some_iff.mp rest
    cases pair
    exact ⟨row, here, same, rfl⟩
  · cases h

theorem resolve_of_find {id : Identity} (here : db.find hash = some row)
    (own : db.identity row = some id) : db.resolve hash = .ok (id, row.revokedAt.isSome) := by
  simp [resolve, here, own]

theorem resolve_error {err : AuthError} (h : db.resolve hash = .error err) :
    err = .notFound ∧ db.find hash = none := by
  cases here : db.find hash with
  | none =>
      simp only [resolve, here, Option.bind_none] at h
      cases h
      exact ⟨rfl, rfl⟩
  | some row =>
      obtain ⟨id, own⟩ := Option.isSome_iff_exists.mp (identity_isSome (find_mem here))
      rw [resolve_of_find here own] at h
      cases h

/-- What becomes of a row: nothing, or it is revoked at `now`, once. -/
inductive Ages (now : Int) : KeyRow → KeyRow → Prop
  | kept (row : KeyRow) : Ages now row row
  | revoked {row : KeyRow} : row.revokedAt = none → Ages now row { row with revokedAt := some now }

/-- What no statement takes back: the teams and orgs stay, and every row stays as it is or is
revoked now. -/
structure Grows (now : Int) (db db' : Database) : Prop where
  teams : db'.teams = db.teams
  orgs : db'.orgs = db.orgs
  rows : ∀ {hash row}, db.find hash = some row → ∃ row', db'.find hash = some row' ∧ Ages now row row'

theorem Grows.refl (now : Int) (db : Database) : db.Grows now db :=
  ⟨rfl, rfl, fun found => ⟨_, found, .kept _⟩⟩

theorem Grows.identity {now : Int} {db' : Database} (h : db.Grows now db') (row : KeyRow) :
    db'.identity row = db.identity row := by
  simp [Database.identity, Database.team, Database.org, h.teams, h.orgs]

theorem Ages.identity {now : Int} {row row' : KeyRow} (h : Ages now row row') :
    db.identity row' = db.identity row := by
  cases h <;> rfl

theorem revokeIf_ages (id : String) (now : Int) (row : KeyRow) : Ages now row (row.revokeIf id now) := by
  unfold KeyRow.revokeIf
  split
  · rename_i live
    exact .revoked live.2
  · exact .kept row

theorem find_revoke (id : String) (now : Int) :
    (db.revoke id now).find hash = (db.find hash).map (KeyRow.revokeIf id now) := by
  simp only [find, revoke, List.find?_map]
  congr 2
  funext row
  simp [KeyRow.revokeIf_hash]

theorem revoke_grows (db : Database) (id : String) (now : Int) : db.Grows now (db.revoke id now) := by
  refine ⟨rfl, rfl, ?_⟩
  intro hash row found
  exact ⟨row.revokeIf id now, by rw [find_revoke, found]; rfl, revokeIf_ages id now row⟩

theorem revokeKey_grows (db : Database) (id : String) (now : Int) :
    db.Grows now (db.revokeKey id now).2 := by
  unfold revokeKey
  split
  · exact revoke_grows db id now
  · exact .refl now db

theorem insertKey_some {db' : Database} (h : db.insertKey row = some db') :
    db'.teams = db.teams ∧ db'.orgs = db.orgs ∧ db'.keys = row :: db.keys ∧
      row.hash ∉ db.keys.map KeyRow.hash := by
  unfold insertKey at h
  split at h
  · rename_i fresh
    cases h
    exact ⟨rfl, rfl, rfl, fresh.2.2⟩
  · cases h

theorem find_insertKey {db' : Database} (h : db.insertKey row = some db') :
    db'.find row.hash = some row := by
  obtain ⟨-, -, keys, -⟩ := insertKey_some h
  simp [find, keys]

theorem insertKey_grows {db' : Database} (now : Int) (h : db.insertKey row = some db') :
    db.Grows now db' := by
  obtain ⟨teams, orgs, keys, fresh⟩ := insertKey_some h
  refine ⟨teams, orgs, ?_⟩
  intro hash old found
  have other : row.hash ≠ hash := by
    rintro rfl
    exact fresh (find_hash found ▸ List.mem_map_of_mem (find_mem found))
  refine ⟨old, ?_, .kept old⟩
  unfold find at found ⊢
  rw [keys, List.find?_cons_of_neg (by simpa using other)]
  exact found

end Database
end Gateway.Auth
