import InferenceGateway.Config.Config
import InferenceGateway.Ledger.Writer
import InferenceGateway.RateLimit.Limiter

/-! The table usage_ledger: which batches a COPY stores and what it makes of their rows, and
the aggregates over a scope and a window that are read back from it. -/
namespace Gateway.Ledger
open Gateway.RateLimit (Fate)

/-- An integer column of this many bits. -/
def holds (bits : Nat) (n : ℤ) : Bool := -2 ^ (bits - 1) ≤ n && n < 2 ^ (bits - 1)

/-- Postgres takes no null character in a TEXT column. -/
def isText (s : String) : Bool := s.toList.all fun c => c.toNat ≠ 0

/-- The nearest integer, halves away from zero. -/
def roundAway (q : ℚ) : ℤ := if 0 ≤ q then ⌊q + 1 / 2⌋ else -⌊-q + 1 / 2⌋

/-- The millionths NUMERIC(12,6) keeps. -/
def micros (cost : ℚ) : ℤ := roundAway (cost * 1000000)

/-- Every column takes its value. -/
def Entry.fits (e : Entry) : Bool :=
  isText e.provider && isText e.model && holds 32 e.promptTokens.toInt &&
    holds 32 e.completionTokens.toInt && holds 32 e.tokensSaved.toInt &&
    (micros e.costUSD).natAbs < 10 ^ 12 && isText e.cacheTier && holds 16 e.attempts.toInt &&
    holds 16 e.statusCode && holds 32 e.latencyMS.toInt

/-- The entry as the table has it. -/
def Entry.stored (e : Entry) : Entry := { e with costUSD := (micros e.costUSD : ℚ) / 1000000 }

/-- `createdAt`, in microseconds, defaults to the time of the transaction. -/
structure Row where
  entry : Entry
  createdAt : ℤ
  deriving DecidableEq

abbrev Table := List Row

/-- One COPY: what becomes of the call, the time of its transaction, and the error for a row
that does not fit. -/
structure Copy where
  fate : Fate
  now : ℤ
  misfit : String

namespace Copy

def stores (copy : Copy) (entries : List Entry) : Bool :=
  copy.fate.executes && entries.all Entry.fits

def err (copy : Copy) (entries : List Entry) : Option String :=
  if entries.all Entry.fits then copy.fate.err else some (copy.fate.err.getD copy.misfit)

def rows (copy : Copy) (entries : List Entry) : Table :=
  entries.map fun e => ⟨e.stored, copy.now⟩

/-- A COPY stores all of its rows or none. -/
def insertBatch (copy : Copy) (table : Table) (entries : List Entry) : Option String × Table :=
  ((copy.err entries).map ("ledger: copy batch of " ++ toString entries.length ++
      " rows into usage_ledger: " ++ ·),
    if copy.stores entries then table ++ copy.rows entries else table)

end Copy

inductive Scope where
  | org
  | team
  | key
  deriving DecidableEq

def scopeColumn : String → Option Scope
  | "org" => some .org
  | "team" => some .team
  | "key" => some .key
  | _ => none

def validScope (scope : String) : Bool := (scopeColumn scope).isSome

/-- The column a scope names. -/
def Scope.id : Scope → Entry → String
  | .org, e => e.orgID
  | .team, e => e.teamID
  | .key, e => e.virtualKeyID

/-- From `since` up to but without `till`, in nanoseconds; Postgres gets whole microseconds. -/
structure Window where
  since : ℤ
  till : ℤ
  deriving DecidableEq

def Window.contains (w : Window) (createdAt : ℤ) : Bool :=
  w.since / 1000 ≤ createdAt && createdAt < w.till / 1000

structure UsageAggregate where
  requests : ℤ
  promptTokens : ℤ
  completionTokens : ℤ
  tokensSaved : ℤ
  costUSD : ℚ
  cacheHits : List (String × ℤ)
  deriving DecidableEq

/-- The SELECT list. -/
def summarize (entries : List Entry) : UsageAggregate where
  requests := entries.length
  promptTokens := (entries.map fun e => e.promptTokens.toInt).sum
  completionTokens := (entries.map fun e => e.completionTokens.toInt).sum
  tokensSaved := (entries.map fun e => e.tokensSaved.toInt).sum
  costUSD := (entries.map Entry.costUSD).sum
  cacheHits := ["none", "exact", "semantic"].map fun tier =>
    (tier, (entries.countP fun e => e.cacheTier = tier : ℤ))

def own (scope : Scope) (id : String) (entries : List Entry) : List Entry :=
  entries.filter fun e => scope.id e = id

/-- The WHERE clause. -/
def Table.select (table : Table) (scope : Scope) (id : String) (w : Window) : List Entry :=
  own scope id ((table.filter fun row => w.contains row.createdAt).map Row.entry)

def aggregate (isPrint : Char → Bool) (fate : Fate) (table : Table) (scope id : String) (w : Window) :
    Except String UsageAggregate :=
  match scopeColumn scope with
  | none => .error ("ledger: unknown scope " ++ Config.quote isPrint scope)
  | some column =>
      match fate.err with
      | some err => .error ("ledger: aggregate query: " ++ err)
      | none => .ok (summarize (Table.select table column id w))

theorem aggregate_ok {isPrint : Char → Bool} {fate : Fate} {table : Table} {scope id : String}
    {w : Window} {usage : UsageAggregate} (h : aggregate isPrint fate table scope id w = .ok usage) :
    ∃ column, scopeColumn scope = some column ∧ usage = summarize (Table.select table column id w) := by
  unfold aggregate at h
  split at h
  · cases h
  · rename_i column known
    split at h
    · cases h
    · cases h
      exact ⟨column, known, rfl⟩

theorem abs_roundAway_sub_le (q : ℚ) : |(roundAway q : ℚ) - q| ≤ 1 / 2 := by
  have near : ∀ q : ℚ, |(⌊q + 1 / 2⌋ : ℚ) - q| ≤ 1 / 2 := by
    intro q
    have low := Int.floor_le (q + 1 / 2)
    have high := Int.lt_floor_add_one (q + 1 / 2)
    rw [abs_le]
    constructor <;> linarith
  unfold roundAway
  split
  · exact near q
  · calc |((-⌊-q + 1 / 2⌋ : ℤ) : ℚ) - q|
      _ = |(⌊-q + 1 / 2⌋ : ℚ) - -q| := by
          rw [← abs_neg]
          push_cast
          ring_nf
      _ ≤ 1 / 2 := near (-q)

/-- What a stored cost is off by. -/
theorem abs_stored_costUSD_sub_le (e : Entry) : |e.stored.costUSD - e.costUSD| ≤ 1 / 2000000 := by
  have near := abs_roundAway_sub_le (e.costUSD * 1000000)
  rw [abs_le] at near ⊢
  simp only [Entry.stored, micros]
  constructor <;> linarith

theorem abs_sum_stored_sub_le (entries : List Entry) :
    |((entries.map Entry.stored).map Entry.costUSD).sum - (entries.map Entry.costUSD).sum| ≤
      (entries.length : ℚ) / 2000000 := by
  induction entries with
  | nil => simp
  | cons e entries ih =>
      have here := abs_stored_costUSD_sub_le e
      rw [abs_le] at here ih ⊢
      simp only [List.map_cons, List.sum_cons, List.length_cons, Nat.cast_add, Nat.cast_one]
      constructor <;> linarith

/-- The tiers the aggregates tell apart. -/
def Entry.KnownTier (e : Entry) : Prop :=
  e.cacheTier = "none" ∨ e.cacheTier = "exact" ∨ e.cacheTier = "semantic"

theorem sum_cacheHits {entries : List Entry} (tiers : ∀ e ∈ entries, e.KnownTier) :
    ((summarize entries).cacheHits.map Prod.snd).sum = (summarize entries).requests := by
  simp only [summarize, List.map_cons, List.map_nil, List.sum_cons, List.sum_nil]
  induction entries with
  | nil => rfl
  | cons e entries ih =>
      have rest := ih fun later member => tiers later (List.mem_cons_of_mem e member)
      simp only [List.countP_cons, List.length_cons]
      rcases tiers e List.mem_cons_self with tier | tier | tier <;> simp [tier] <;> omega

@[simp] theorem Copy.rows_entry (copy : Copy) (entries : List Entry) :
    (copy.rows entries).map Row.entry = entries.map Entry.stored := by
  simp [rows]

@[simp] theorem own_stored (scope : Scope) (id : String) (entries : List Entry) :
    own scope id (entries.map Entry.stored) = (own scope id entries).map Entry.stored := by
  unfold own
  rw [List.filter_map]
  congr 1
  refine List.filter_congr ?_
  intro e _
  cases scope <;> rfl

/-- What InsertBatch does to the table, and when it cannot have returned nil. -/
theorem Copy.insertBatch_cases (copy : Copy) (table : Table) (entries : List Entry) :
    (copy.insertBatch table entries).2 = table ++ copy.rows entries ∨
      (copy.insertBatch table entries).2 = table ∧ (copy.insertBatch table entries).1 ≠ none := by
  unfold insertBatch
  cases stores : copy.stores entries with
  | true => exact .inl rfl
  | false =>
      refine .inr ⟨rfl, ?_⟩
      unfold Copy.stores at stores
      unfold Copy.err
      cases fits : entries.all Entry.fits with
      | true =>
          cases fate : copy.fate with
          | unexecuted err => simp [Fate.err]
          | _ => simp [fate, fits, Fate.executes] at stores
      | false => simp

end Gateway.Ledger
