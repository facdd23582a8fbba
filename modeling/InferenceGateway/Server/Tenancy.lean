import InferenceGateway.Glob.Basic
import InferenceGateway.Server.Purge
import InferenceGateway.Utf8.Runes

/-! What a purge deletes. The tenant of the request is spliced into the MATCH pattern of a SCAN
as it stands, so it is read as a glob. -/
namespace Gateway.Server
open Gateway.Providers Gateway.Exact
open Interaction hiding Program.perform
open Interaction.Program hiding pure perform
open Utf8 (encode)

def isHexDigit (c : Char) : Bool := "0123456789abcdef".toList.contains c

/-- The text uuid.UUID.String gives an org's id. -/
def IsOrgID (text : String) : Prop :=
  text.length = 36 ∧ (text.toList.zipIdx.all fun (c, i) =>
    if i = 8 ∨ i = 13 ∨ i = 18 ∨ i = 23 then c == '-' else isHexDigit c) = true

/-- hex.EncodeToString writes nothing but hex digits. -/
def Library.HexDigests (lib : Library) : Prop :=
  ∀ canon, (lib.sha256Hex canon).toList.all isHexDigit = true

/-- The pattern accepts the key, byte by byte. -/
def globMatches (pattern key : String) : Prop :=
  Glob.accepts (encode pattern.toList) (encode key.toList) = true

/-- What the gateway has in Redis: keys of the exact cache are those of some org. -/
def Written (lib : Library) (keys : Set String) : Prop :=
  ∀ key ∈ keys, "cache:exact:".toList <+: key.toList →
    ∃ org canon, IsOrgID org ∧ key = exactKey lib org canon

/-- A full SCAN of a key set that only the purge changes yields the keys that match. -/
def Scanned (keys : Set String) (ev : Event RedisOp RedisOp.Reply) : Prop :=
  ∀ pattern yielded err, ev = ⟨.scan pattern, (yielded, err)⟩ →
    ∀ key, key ∈ yielded ↔ key ∈ keys ∧ globMatches pattern key

def deletion : Event RedisOp RedisOp.Reply → Option String
  | ⟨.del key, none⟩ => some key
  | _ => none

def deletions (tr : List (Event RedisOp RedisOp.Reply)) : List String := tr.filterMap deletion

/-- Every purge of the tenant that ends without an error deletes its keys and no others. -/
def PurgesOwnKeys (lib : Library) (tenant : String) : Prop :=
  ∀ (keys : Set String) (tr : List (Event RedisOp RedisOp.Reply)) (count : Nat), Written lib keys →
    Runs (purgeTenant tenant) tr (count, none) → (∀ ev ∈ tr, Scanned keys ev) →
    ∀ key, key ∈ deletions tr ↔
      key ∈ keys ∧ ∃ org canon, IsOrgID org ∧ key = exactKey lib org canon ∧ org = tenant

theorem purgeKeys_deletions {ended : Option String} {keys : List String} {deleted count : Nat}
    {tr : List (Event RedisOp RedisOp.Reply)}
    (run : Runs (purgeKeys ended keys deleted) tr (count, none)) : deletions tr = keys := by
  induction keys generalizing deleted tr with
  | nil =>
      obtain ⟨rfl, -⟩ := runs_pure.mp run
      rfl
  | cons key rest ih =>
      obtain ⟨failed, tr', rfl, later⟩ := runs_perform_bind.mp run
      cases failed with
      | some err =>
          obtain ⟨-, same⟩ := runs_pure.mp later
          cases same
      | none =>
          exact congrArg (key :: ·) (ih later)

/-- The deletions are what the scan yields. -/
theorem purgeTenant_deletions {tenant : String} {keys : Set String} {count : Nat}
    {tr : List (Event RedisOp RedisOp.Reply)} (run : Runs (purgeTenant tenant) tr (count, none))
    (scanned : ∀ ev ∈ tr, Scanned keys ev) (key : String) :
    key ∈ deletions tr ↔ key ∈ keys ∧ globMatches (tenantStem tenant ++ "*") key := by
  obtain ⟨⟨yielded, ended⟩, tr', rfl, later⟩ := runs_perform_bind.mp run
  have deleted : deletions tr' = yielded := purgeKeys_deletions later
  change key ∈ deletions tr' ↔ _
  rw [deleted]
  exact scanned _ List.mem_cons_self _ _ _ rfl key

theorem plain_of_verbatim {text : String} (verbatim : Verbatim text) :
    ∀ b ∈ encode text.toList, Glob.IsPlain b := by
  intro b member
  obtain ⟨c, listed, inside⟩ := List.mem_flatMap.mp member
  have special : ¬ ['*', '?', '[', '\\'].contains c = true :=
    List.any_eq_false.mp verbatim c listed
  have other (mark : UInt8) (char : Char) (code : char.toNat = mark.toNat)
      (ascii : mark.toNat < 128) (among : ['*', '?', '[', '\\'].contains char = true) : b ≠ mark := by
    rintro rfl
    have same : c = char := Char.ext_iff.mpr (UInt32.toNat_inj.mp
      ((Utf8.toNat_of_mem_encodeChar inside ascii).trans code.symm))
    exact special (same ▸ among)
  exact ⟨other _ '*' rfl (by decide) (by decide), other _ '?' rfl (by decide) (by decide),
    other _ '[' rfl (by decide) (by decide), other _ '\\' rfl (by decide) (by decide)⟩

/-- A verbatim stem with a star is a test for a leading text. -/
theorem globMatches_stem {stem key : String} (verbatim : Verbatim stem) :
    globMatches (stem ++ "*") key ↔ stem.toList <+: key.toList := by
  rw [globMatches, String.toList_append, Utf8.encode_append, ← Utf8.encode_prefix_iff]
  exact Glob.accepts_stem (plain_of_verbatim verbatim)

/-- Whatever the tenant, a purge stays within the exact cache. -/
theorem lead_of_globMatches {tenant key : String}
    (matched : globMatches (tenantStem tenant ++ "*") key) : "cache:exact:".toList <+: key.toList := by
  have plain : Verbatim "cache:exact:" := rfl
  unfold globMatches tenantStem at matched
  rw [String.append_assoc, String.append_assoc, String.toList_append, Utf8.encode_append,
    Glob.accepts_plain_append (plain_of_verbatim plain)] at matched
  obtain ⟨rest, same, -⟩ := matched
  exact Utf8.encode_prefix_iff.mp ⟨rest, same.symm⟩

theorem isHexDigit_colon : isHexDigit ':' = false := by decide

theorem Library.HexDigests.colon {lib : Library} (hex : lib.HexDigests) (canon : String) :
    ':' ∉ (lib.sha256Hex canon).toList := by
  intro member
  have digit := List.all_eq_true.mp (hex canon) ':' member
  rw [isHexDigit_colon] at digit
  cases digit

theorem IsOrgID.isUUID {text : String} (h : IsOrgID text) : IsUUID text := by
  refine ⟨h.1, List.all_eq_true.mpr fun c member => ?_⟩
  obtain ⟨i, indexed⟩ := List.mem_iff_getElem?.mp member
  have shaped := List.all_eq_true.mp h.2 (c, i) (List.mk_mem_zipIdx_iff_getElem?.mpr indexed)
  have either : c = '-' ∨ isHexDigit c = true := by
    simp only at shaped
    split at shaped
    · exact .inl (beq_iff_eq.mp shaped)
    · exact .inr shaped
  have letters : ("0123456789abcdef".toList.all fun d =>
      d.isDigit || "abcdef-".toList.contains d) = true := rfl
  rcases either with rfl | digit
  · rfl
  · exact List.all_eq_true.mp letters c (List.contains_iff_mem.mp digit)

theorem IsOrgID.colon {text : String} (h : IsOrgID text) : ':' ∉ text.toList := by
  intro member
  have letter := List.all_eq_true.mp h.isUUID.2 ':' member
  revert letter
  decide

/-- The last colon of a key ends its tenant. -/
theorem eq_of_last_colon {tenant org rest digest : List Char} (plain : ':' ∉ org)
    (hex : ':' ∉ digest) (same : tenant ++ ':' :: rest = org ++ ':' :: digest) : tenant = org := by
  rcases List.append_eq_append_iff.mp same with ⟨more, rfl, split⟩ | ⟨more, rfl, split⟩
  · cases more with
    | nil => exact (List.append_nil _).symm
    | cons c more =>
        cases (List.cons.inj split).1
        exact absurd (List.mem_append_right _ List.mem_cons_self) plain
  · cases more with
    | nil => exact List.append_nil _
    | cons c more =>
        have inner : digest = more ++ ':' :: rest := (List.cons.inj split).2
        exact absurd (inner ▸ List.mem_append_right _ List.mem_cons_self) hex

/-- Among the keys of orgs the stem of a tenant leads its own only. -/
theorem tenantStem_prefix_exactKey {lib : Library} (hex : lib.HexDigests)
    {tenant org canon : String} (id : IsOrgID org) :
    (tenantStem tenant).toList <+: (exactKey lib org canon).toList ↔ org = tenant := by
  constructor
  · rintro ⟨rest, split⟩
    have cut : tenant.toList ++ ':' :: rest =
        org.toList ++ ':' :: (lib.sha256Hex canon).toList := by
      unfold tenantStem exactKey at split
      simpa using split
    exact String.toList_inj.mp (eq_of_last_colon id.colon (hex.colon canon) cut).symm
  · rintro rfl
    exact exactKey_own lib org canon

/-- A purge of a verbatim tenant deletes what is there of it. -/
theorem purgesOwnKeys_of_verbatim {lib : Library} (hex : lib.HexDigests) {tenant : String}
    (verbatim : Verbatim tenant) : PurgesOwnKeys lib tenant := by
  intro keys tr count written run scanned key
  rw [purgeTenant_deletions run scanned, globMatches_stem verbatim.tenantStem]
  refine and_congr_right fun present => ?_
  constructor
  · intro own
    have lead := lead_of_globMatches ((globMatches_stem verbatim.tenantStem).mpr own)
    obtain ⟨org, canon, id, rfl⟩ := written key present lead
    exact ⟨org, canon, id, rfl, (tenantStem_prefix_exactKey hex id).mp own⟩
  · rintro ⟨org, canon, id, rfl, same⟩
    exact (tenantStem_prefix_exactKey hex id).mpr same

/-- The purge of one key that matches. -/
def purgeOf (tenant key : String) : List (Event RedisOp RedisOp.Reply) :=
  [⟨.scan (tenantStem tenant ++ "*"), ([key], none)⟩, ⟨.del key, none⟩]

theorem runs_purgeOf (tenant key : String) :
    Runs (purgeTenant tenant) (purgeOf tenant key) (1, none) :=
  .request _ (.request _ (.pure _))

theorem purgeOf_scanned {tenant key : String} (matched : globMatches (tenantStem tenant ++ "*") key) :
    ∀ ev ∈ purgeOf tenant key, Scanned {key} ev := by
  intro ev member pattern yielded err same other
  subst same
  rcases List.mem_cons.mp member with scan | rest
  · cases scan
    rw [List.mem_singleton, Set.mem_singleton_iff, iff_self_and]
    rintro rfl
    exact matched
  · cases List.mem_singleton.mp rest

/-- A pattern that is no id deletes nothing of its own. -/
theorem not_purgesOwnKeys {lib : Library} {tenant org canon : String} (special : ¬ Verbatim tenant)
    (id : IsOrgID org) (matched : globMatches (tenantStem tenant ++ "*") (exactKey lib org canon)) :
    ¬ PurgesOwnKeys lib tenant := by
  intro only
  have written : Written lib {exactKey lib org canon} := by
    rintro key rfl -
    exact ⟨org, canon, id, rfl⟩
  have deleted := (only _ _ 1 written (runs_purgeOf tenant _) (purgeOf_scanned matched) _).mp
    List.mem_cons_self
  obtain ⟨-, tenant', -, own, -, rfl⟩ := deleted
  exact special own.isUUID.verbatim

/-- A purge deletes the keys of its tenant and no others exactly if the tenant has no glob
characters or, read as a glob, meets no key of an org. -/
theorem purgesOwnKeys_iff {lib : Library} (hex : lib.HexDigests) (tenant : String) :
    PurgesOwnKeys lib tenant ↔ Verbatim tenant ∨ ∀ org canon, IsOrgID org →
      ¬ globMatches (tenantStem tenant ++ "*") (exactKey lib org canon) := by
  constructor
  · intro only
    by_contra! broken
    obtain ⟨special, org, canon, id, matched⟩ := broken
    exact not_purgesOwnKeys special id matched only
  · rintro (verbatim | unmatched)
    · exact purgesOwnKeys_of_verbatim hex verbatim
    · intro keys tr count written run scanned key
      rw [purgeTenant_deletions run scanned]
      refine and_congr_right fun present => iff_of_false ?_ ?_
      · intro matched
        obtain ⟨org, canon, id, rfl⟩ := written key present (lead_of_globMatches matched)
        exact unmatched org canon id matched
      · rintro ⟨org, canon, id, rfl, rfl⟩
        refine unmatched org canon id ?_
        rw [globMatches_stem id.isUUID.verbatim.tenantStem]
        exact exactKey_own lib org canon

/-- A library whose digest is that of the empty text. -/
def digesting : Library :=
  { oneProvider.lib with
    sha256Hex := fun _ => "e3b0c44298fc1c149afbf4c8996fb92427ae41e4649b934ca495991b7852b855" }

theorem digesting_hexDigests : digesting.HexDigests := by
  intro _
  change ("e3b0c44298fc1c149afbf4c8996fb92427ae41e4649b934ca495991b7852b855".toList.all
    isHexDigit) = true
  decide +kernel

theorem acme_purges_own_keys : digesting.HexDigests ∧ PurgesOwnKeys digesting acme.orgID :=
  ⟨digesting_hexDigests, (purgesOwnKeys_iff digesting_hexDigests acme.orgID).mpr (.inl rfl)⟩

/-- The admin's purge of one key of another org, answered 200. -/
def starPurge : List (Event AdminOp AdminOp.Reply) :=
  (purgeOf "*" (exactKey digesting acme.orgID "")).map (liftEvent AdminOp.redis fun _ => .refl _) ++
    [⟨.server (.http (.setHeader "Content-Type" "application/json")), ()⟩,
      ⟨.server (.http (.writeHeader 200)), ()⟩,
      ⟨.server (.http (.write (encodeLine (purgeCacheResponse 1)))), none⟩]

/-- The tenant `*` purges every org. -/
theorem star_purges_acme :
    IsOrgID acme.orgID ∧ Runs (handlePurgeCache true ⟨.ok "*", "r1"⟩) starPurge .returned ∧
      answeredStatus starPurge = some 200 ∧
      exactKey digesting acme.orgID "" ∈ deletions (purgeOf "*" (exactKey digesting acme.orgID "")) ∧
      ¬ PurgesOwnKeys digesting "*" := by
  have id : IsOrgID acme.orgID := ⟨rfl, by decide +kernel⟩
  have special : ¬ Verbatim "*" := Bool.true_eq_false.mp
  have matched : globMatches (tenantStem "*" ++ "*") (exactKey digesting acme.orgID "") := by
    unfold globMatches
    decide +kernel
  refine ⟨id, ?_, rfl, List.mem_cons_self, not_purgesOwnKeys special id matched⟩
  exact .request _ (.request _ (.request _ (.request _ (.request _ (.pure _)))))

end Gateway.Server
