import JobPing.Schema
import Mathlib.Logic.Function.Basic

/-!
# The deduplication cache

`app/services/deduplicator.py`. A key of the cache may be missing, expired, or hold any text.
-/

namespace JobPing

/-- The Redis keys `jobping:dedupe:<base_hash>`. -/
abbrev Cache := Digest → Option Str

/-- The arguments of one `classify_and_update`. -/
structure CacheWrite where
  baseHash : Digest
  contentHash : Digest
  isClosed : Bool
  deriving DecidableEq

/-- What is written to the deduplicator about a job. -/
def NormalizedJob.cacheWrite (job : NormalizedJob) : CacheWrite :=
  ⟨job.baseHash, job.contentHash, job.isClosed⟩

/-- What is written to the deduplicator about a posting. -/
def JobPosting.cacheWrite (posting : JobPosting) : CacheWrite :=
  ⟨posting.baseHash, posting.contentHash, posting.isClosed⟩

/-- The script `_COMPARE_AND_UPDATE`, with `_RESULTS`. -/
def classifyAndUpdate (cache : Cache) (write : CacheWrite) : DeduplicationState × Cache :=
  let updated := Function.update cache write.baseHash (some write.contentHash.hex)
  match cache write.baseHash with
  | none => (.newRole, updated)
  | some previous =>
    if previous = write.contentHash.hex then (.noOp, cache)
    else if write.isClosed then (.roleClosed, updated)
    else (.roleUpdated, updated)

/-- The cache after a sequence of writes. -/
def updateAll (cache : Cache) (writes : List CacheWrite) : Cache :=
  writes.foldl (fun cache write => (classifyAndUpdate cache write).2) cache

/-- Whatever it answers, the script leaves the content hash under the key. -/
theorem classifyAndUpdate_cache (cache : Cache) (write : CacheWrite) :
    (classifyAndUpdate cache write).2 =
      Function.update cache write.baseHash (some write.contentHash.hex) := by
  unfold classifyAndUpdate
  cases h : cache write.baseHash with
  | none => rfl
  | some previous =>
    simp only
    split_ifs with hsame hclosed
    · -- the key held the hash already
      rw [← hsame, ← h, Function.update_eq_self]
    · rfl
    · rfl

theorem updateAll_cons (cache : Cache) (write : CacheWrite) (writes : List CacheWrite) :
    updateAll cache (write :: writes) =
      updateAll (Function.update cache write.baseHash (some write.contentHash.hex)) writes :=
  congrArg (updateAll · writes) (classifyAndUpdate_cache cache write)

/-- Writes to other keys leave a key as it was. -/
theorem updateAll_of_notMem {cache : Cache} {writes : List CacheWrite} {key : Digest}
    (h : key ∉ writes.map (·.baseHash)) : updateAll cache writes key = cache key := by
  induction writes generalizing cache with
  | nil => rfl
  | cons write writes ih =>
    rw [List.map_cons, List.mem_cons, not_or] at h
    rw [updateAll_cons, ih h.2, Function.update_of_ne h.1]

/-- **Each of the writes of distinct jobs is found** in the cache they leave. -/
theorem updateAll_written {cache : Cache} {writes : List CacheWrite}
    (hdistinct : (writes.map (·.baseHash)).Nodup) {write : CacheWrite} (hmem : write ∈ writes) :
    updateAll cache writes write.baseHash = some write.contentHash.hex := by
  induction writes generalizing cache with
  | nil => cases hmem
  | cons first writes ih =>
    rw [List.map_cons, List.nodup_cons] at hdistinct
    rw [updateAll_cons]
    rcases List.mem_cons.mp hmem with rfl | hmem
    · rw [updateAll_of_notMem hdistinct.1, Function.update_self]
    · exact ih hdistinct.2 hmem

/-- Writing again what the cache holds changes nothing. -/
theorem updateAll_held {cache : Cache} {writes : List CacheWrite}
    (h : ∀ write ∈ writes, cache write.baseHash = some write.contentHash.hex) :
    updateAll cache writes = cache := by
  induction writes with
  | nil => rfl
  | cons write writes ih =>
    rw [updateAll_cons, ← h write List.mem_cons_self, Function.update_eq_self]
    exact ih fun other hother => h other (List.mem_cons_of_mem _ hother)

/-- The script never answers `ROLE_REPOSTED`, and `ROLE_CLOSED` for a closed state only. -/
theorem classifyAndUpdate_state (cache : Cache) (write : CacheWrite) :
    (classifyAndUpdate cache write).1 ≠ .roleReposted ∧
      ((classifyAndUpdate cache write).1 = .roleClosed → write.isClosed = true) := by
  unfold classifyAndUpdate
  cases cache write.baseHash with
  | none => simp
  | some previous =>
    simp only
    split_ifs with hsame hclosed <;> simp [*]

end JobPing
