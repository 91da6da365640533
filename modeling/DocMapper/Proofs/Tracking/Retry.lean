import DocMapper.Proofs.Command
import DocMapper.Proofs.Tracking.Cover
import DocMapper.Tracking.Storage
/-!
# Saving again after a failure

Finding out what has to be stored collapses pending changes, and a save does so before it can fail.
A document that could not be stored is found to need the same statement again.
-/

namespace DocMapper

namespace Document

/-! ### What a save sends -/

def adopt (doc : Document) (dialect : Dialect) : Document :=
  { doc with dialect := dialect }

/-- Checks and stores a document in the dialect that it has. -/
def store (doc : Document) (conn : Connection) : Except Error Nat × Document × Connection :=
  match doc.validate with
  | .error e => (.error e, doc, conn)
  | .ok () => if doc.isNew then doc.insert conn else doc.update conn

theorem save_eq_store (doc : Document) (conn : Connection) :
    doc.save conn = (doc.adopt conn.config.dialect).store conn := rfl

theorem toUpdate_snd (doc : Document) : doc.toUpdate.2 = doc.delta.2 := by
  unfold toUpdate
  dsimp only
  split
  · rfl
  · split <;> rfl

theorem toUpdate_delta (doc : Document) : doc.delta.2.toUpdate = doc.toUpdate := by
  unfold toUpdate
  rw [delta_delta]

/-- The calls that storing a document makes. -/
def saveCalls (doc : Document) (config : Config) : List RecordedCall :=
  match doc.validate with
  | .error _ => []
  | .ok () =>
    if doc.isNew then (CommandEntry.statement doc.toInsert).queryCalls config []
    else
      match doc.toUpdate.1 with
      | .ok (some s) => (CommandEntry.statement s).executeCalls config []
      | _ => []

theorem length_saveCalls_le (doc : Document) (config : Config) :
    (doc.saveCalls config).length ≤ 1 := by
  unfold saveCalls
  split
  · simp
  · split
    · exact CommandEntry.length_queryCalls_le _ _ _
    · split
      · exact CommandEntry.length_executeCalls_le _ _ _
      · simp

/-- What a save sends is not changed by taking the changes before. -/
theorem saveCalls_delta (doc : Document) (config : Config) :
    doc.delta.2.saveCalls config = doc.saveCalls config := by
  unfold saveCalls
  rw [toUpdate_delta]
  rfl

theorem sends_insert (doc : Document) (conn : Connection) :
    conn.Sends (doc.insert conn).2.2
      ((CommandEntry.statement doc.toInsert).queryCalls conn.config []) := by
  have hsends := Command.sends_one (.statement doc.toInsert) [] conn
  unfold Document.insert
  dsimp only
  split <;> exact hsends

theorem sends_update (doc : Document) (conn : Connection) :
    conn.Sends (doc.update conn).2.2
      (match doc.toUpdate.1 with
        | .ok (some s) => (CommandEntry.statement s).executeCalls conn.config []
        | _ => []) := by
  unfold Document.update
  obtain ⟨result, taken⟩ := doc.toUpdate
  match result with
  | .error e => exact conn.sends_nothing
  | .ok none => exact conn.sends_nothing
  | .ok (some s) =>
    have hsends := Command.sends_execute (.statement s) [] conn
    dsimp only
    split
    · next heq => simpa [heq] using hsends
    · next heq => simpa [heq] using hsends

theorem sends_store (doc : Document) (conn : Connection) :
    conn.Sends (doc.store conn).2.2 (doc.saveCalls conn.config) := by
  unfold store saveCalls
  cases doc.validate with
  | error e => exact conn.sends_nothing
  | ok _ =>
    dsimp only
    split
    · exact doc.sends_insert conn
    · exact doc.sends_update conn

/-! ### A save that fails -/

variable {doc doc' : Document} {conn conn' : Connection} {e : Error}

theorem insert_eq_error (h : doc.insert conn = (.error e, doc', conn')) : doc' = doc := by
  unfold Document.insert at h
  dsimp only at h
  split at h
  · cases h
    rfl
  · cases h

theorem update_eq_error (h : doc.update conn = (.error e, doc', conn')) : doc' = doc.delta.2 := by
  have hdelta := doc.toUpdate_snd
  unfold Document.update at h
  split at h
  · next heq =>
    cases h
    rw [← hdelta, heq]
  · cases h
  · next heq =>
    split at h
    · cases h
      rw [← hdelta, heq]
    · cases h

/-- Before it fails a save has taken the changes at most. -/
theorem store_eq_error (h : doc.store conn = (.error e, doc', conn')) :
    doc' = doc ∨ doc' = doc.delta.2 := by
  unfold store at h
  split at h
  · cases h
    exact Or.inl rfl
  · split at h
    · exact Or.inl (insert_eq_error h)
    · exact Or.inr (update_eq_error h)

/-- After a save that failed a document is as it was, and saving it again over the same connection
sends the same call again, or none again. -/
theorem retry_sends_same (h : doc.save conn = (.error e, doc', conn')) :
    (doc'.values = doc.values ∧ doc'.paths = doc.paths ∧ doc'.rid? = doc.rid? ∧
      doc'.isNew = doc.isNew) ∧
    ∃ sent, sent.length ≤ 1 ∧ conn'.transport.calls = conn.transport.calls ++ sent ∧
      (doc'.save conn').2.2.transport.calls = conn'.transport.calls ++ sent := by
  rw [save_eq_store] at h
  have hfirst := (doc.adopt conn.config.dialect).sends_store conn
  rw [h] at hfirst
  have hagain : doc'.adopt conn'.config.dialect = doc' ∧
      doc'.saveCalls conn'.config =
        (doc.adopt conn.config.dialect).saveCalls conn.config := by
    rw [hfirst.config]
    rcases store_eq_error h with rfl | rfl
    · exact ⟨rfl, rfl⟩
    · exact ⟨rfl, saveCalls_delta _ _⟩
  have hsecond := doc'.sends_store conn'
  rw [hagain.2] at hsecond
  refine ⟨?_, _, length_saveCalls_le _ _, hfirst.calls, ?_⟩
  · rcases store_eq_error h with rfl | rfl <;> exact ⟨rfl, rfl, rfl, rfl⟩
  · rw [save_eq_store, hagain.1]
    exact hsecond.calls

/-- A value was pushed to a list, and an item of the list is marked too. -/
def entangled : Document where
  schema := .empty "User"
  dialect := .strict
  rid? := some ⟨5, 1⟩
  values := [("tags", .list [.string "a", .string "b"])]
  paths := ⟨[("tags", .modified), ("tags.0", .modified)]⟩
  atomics := [("tags", .list (.add [.string "b"]))]
  selection? := none
  isNew := false

def offline : Connection :=
  ⟨.default, MemoryTransport.empty.pushError (.transport "down")⟩

theorem retry_sends_same_entangled :
    ∃ doc' conn', entangled.save offline = (.error (.transport "down"), doc', conn') ∧
      conn'.transport.texts = ["UPDATE #5:1 SET tags = [\"a\", \"b\"] RETURN AFTER @this"] ∧
      (doc'.values = entangled.values ∧ doc'.paths = entangled.paths ∧
        doc'.rid? = entangled.rid? ∧ doc'.isNew = entangled.isNew) ∧
      ∃ sent, sent.length ≤ 1 ∧
        conn'.transport.calls = offline.transport.calls ++ sent ∧
        (doc'.save conn').2.2.transport.calls = conn'.transport.calls ++ sent := by
  have hfails : entangled.save offline =
      (.error (.transport "down"), (entangled.save offline).2.1, (entangled.save offline).2.2) := rfl
  exact ⟨_, _, hfails, rfl, retry_sends_same hfails⟩

end Document

end DocMapper
