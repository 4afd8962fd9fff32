import AevumDb.Storage.PrimaryIndex

/-!
# Update

Db::update hands the collection to the engine's update and installs whatever
the answer parses to, `NULL` for text that does not parse and an object for the
`"{}"` a null answer arrives as; it rebuilds both indexes from it, compacts the
log from it, and returns true without looking at the compaction's outcome.  So
update returns true on every present collection (`update_of_present`): an
answer that is no array replaces the collection and, once compacted, its log,
and a failed compaction leaves the log behind the collection in memory.
-/

namespace AevumDb

open Item

namespace Db

variable {E : PredicateEngine} {env : Env} {db : Db} {coll : String}

theorem update_of_present {arr : Item} (h : db.memoryStore.lookup coll = some (some arr))
    (query data : Item) :
    exists db', db.update E env coll query data = some (true, db') ∧
      db'.memoryStore.lookup coll = some (updatedCollection E arr query data) ∧
      Engine.logFrames db'.storage coll = if env.ioOk then
        (children (updatedCollection E arr query data)).map fun p => some (reparse p)
      else Engine.logFrames db.storage coll := by
  refine ⟨_, by rw [update, h], ?_, ?_⟩
  · rw [memoryStore_compactCollection, rebuildIndex_eq]
    exact AList.lookup_insert _
  · rw [compactCollection_snd, rebuildIndex_eq]
    simp only [AList.lookup_insert]
    cases env.ioOk
    · rfl
    · exact Engine.logFrames_compact_self _ _ _

end Db

/-- After one insert into `c`, two updates that return true: an engine answering null (text
`"{}"`) replaces the collection by an object and, the compaction succeeding, empties its log; an
engine answering an empty array, the compaction failing, empties the collection and leaves the
document's frame in its log. -/
theorem update_succeeds_without_array_or_compaction :
    exists db, Db.runCalls PredicateEngine.unchanged ⟨0, 0, 0, true⟩ (Db.fresh ⟨0, 0, 0, true⟩)
        [.insert "c" (createObject.addStringToObject "_id" "d")] = some db ∧
      (exists db', db.update { PredicateEngine.unchanged with update := fun _ _ _ => some createObject }
          ⟨1, 1, 0, true⟩ "c" createObject createObject = some (true, db') ∧
        db'.memoryStore.lookup "c" = some (some createObject) ∧ db'.storage.get "c" = []) ∧
      (exists db', db.update { PredicateEngine.unchanged with update := fun _ _ _ => some createArray }
          ⟨1, 1, 0, false⟩ "c" createObject createObject = some (true, db') ∧
        children (db'.memoryStore.get "c") = [] ∧ db'.storage.get "c" = db.storage.get "c" ∧
        db.storage.get "c" ≠ []) := by
  obtain ⟨db, hdb⟩ : ∃ db, Db.runCalls PredicateEngine.unchanged ⟨0, 0, 0, true⟩ (Db.fresh ⟨0, 0, 0, true⟩)
      [.insert "c" (createObject.addStringToObject "_id" "d")] = some db := ⟨_, rfl⟩
  have hl : db.memoryStore.lookup "c" = some (some ⟨.array, none, [createObject.addStringToObject "_id" "d"]⟩) := by
    cases hdb; rfl
  have hframes (s : StrMap (List Frame)) : Engine.logFrames s "c" = s.get "c" := by
    rw [Engine.logFrames, Engine.fileKey_of_slashFree (by decide)]
  refine ⟨db, hdb, ?_, ?_⟩
  · -- the engine's null arrives as `{}`, and the compaction succeeds
    obtain ⟨db', h', hm, hs⟩ := @Db.update_of_present { PredicateEngine.unchanged with
      update := fun _ _ _ => some createObject } ⟨1, 1, 0, true⟩ db "c" _ hl createObject createObject
    rw [hframes, hframes, if_pos rfl] at hs
    exact ⟨db', h', hm, hs⟩
  · -- the engine answers `[]`, and the compaction fails
    obtain ⟨db', h', hm, hs⟩ := @Db.update_of_present { PredicateEngine.unchanged with
      update := fun _ _ _ => some createArray } ⟨1, 1, 0, false⟩ db "c" _ hl createObject createObject
    rw [hframes, hframes, if_neg (by decide)] at hs
    refine ⟨db', h', by rw [StrMap.get, hm]; rfl, hs, ?_⟩
    cases hdb
    decide

end AevumDb
