import AevumDb.Storage.Find
import AevumDb.Storage.Replay

/-!
# Rebuilding from scratch

Two code paths of `Db` rebuild from a collection's documents what a run otherwise maintains
one write at a time.  `rebuild_index`, which `load_all` and `update` run, files every
document afresh into `id_indexes_` and `custom_indexes_`; `compact_collection`, which
`trigger_compaction` and `load_all` run, rewrites a log as one frame per document in memory.
Along the runs whose invariants `PrimaryIndex`, `SecondaryIndex` and `Replay` establish, each
agrees with what it replaces: a rebuild of a collection's indexes changes no lookup
(`rebuild_index_agrees`), and a compaction changes nothing its log replays to
(`compaction_keeps_replay`).
-/

namespace AevumDb

open Item Recovery

namespace Db

variable {db : Db} {coll : String}

theorem rebuildIndex_primary (h : CollectionIndexed db coll) (u : String) :
    ((db.rebuildIndex coll (db.memoryStore.get coll)).idIndexes.get coll).lookup u =
      (db.idIndexes.get coll).lookup u := by
  rw [rebuildIndex_eq, StrMap.get_insert_self]
  have hi := h.indexed
  exact hi.lookup_eq (Indexed.primaryIndex hi.objects hi.ids hi.nodup) u

theorem rebuildIndex_secondary (h : SecondaryAgrees db coll) (f k : String) :
    (CustomIndexes.entry (db.rebuildIndex coll (db.memoryStore.get coll)).customIndexes coll f k).Perm
      (CustomIndexes.entry db.customIndexes coll f k) := by
  rw [rebuildIndex_eq]
  show (CustomIndexes.entry (secondaryIndex db.indexedFields db.customIndexes coll
    (children (db.memoryStore.get coll))) coll f k).Perm _
  rw [secondaryIndex, CustomIndexes.entry_foldl_update _ h.nodup, CustomIndexes.entry_insert_empty,
    if_pos rfl]
  by_cases hf : (coll, f) ∈ db.indexedFields
  · rw [if_pos ⟨rfl, hf⟩, List.nil_append]
    exact (h.agree f hf k).symm
  · rw [if_neg fun h => hf h.2, h.unregistered f k hf]

end Db

/-- Along every run whose inserts add objects with fresh `_id`s and whose `create_index` calls
backfill no collection already indexed on another field, under an engine whose update keeps
`_id`s, `rebuild_index` on a collection's own documents changes no index lookup:
`id_indexes_` files every `_id` under the same document, and `custom_indexes_` lists under
every field and key the same documents, up to order.  The incremental maintenance of the
indexes agrees with rebuilding them. -/
theorem rebuild_index_agrees {E : PredicateEngine} (hE : E.KeepsIds) {db : Db}
    (h : Reachable E (indexedCalls E) db) {coll : String} (hc : coll ≠ "_auth") :
    (∀ u, ((db.rebuildIndex coll (db.memoryStore.get coll)).idIndexes.get coll).lookup u =
      (db.idIndexes.get coll).lookup u) ∧
    ∀ f k, (CustomIndexes.entry (db.rebuildIndex coll (db.memoryStore.get coll)).customIndexes
      coll f k).Perm (CustomIndexes.entry db.customIndexes coll f k) :=
  ⟨Db.rebuildIndex_primary (collectionIndexed_of_freshInserts hE (h.mono fun _ _ _ hc => hc.1) hc),
    Db.rebuildIndex_secondary (secondaryAgrees_of_backfillSafe hE (h.mono fun _ _ _ hc => hc.2) hc)⟩

theorem rebuild_index_after_insert_and_index :
    ∃ db, Reachable PredicateEngine.unchanged (indexedCalls PredicateEngine.unchanged) db ∧
      children (db.memoryStore.get "c") ≠ [] ∧ ("c", "a") ∈ db.indexedFields ∧
      (∀ u, ((db.rebuildIndex "c" (db.memoryStore.get "c")).idIndexes.get "c").lookup u =
        (db.idIndexes.get "c").lookup u) ∧
      ∀ f k, (CustomIndexes.entry (db.rebuildIndex "c" (db.memoryStore.get "c")).customIndexes
        "c" f k).Perm (CustomIndexes.entry db.customIndexes "c" f k) := by
  have hreach : Reachable PredicateEngine.unchanged (indexedCalls PredicateEngine.unchanged)
      (((((Db.fresh ⟨0, 0, 0, true⟩).getCollection "c").inserted "c" "d"
        ((createObject.addStringToObject "_id" "d").addStringToObject "a" "x") true).createIndex
          ⟨0, 0, 0, true⟩ "c" "a").2) :=
    .call ⟨0, 0, 0, true⟩ (.createIndex "c" "a")
      (.call ⟨0, 0, 0, true⟩ (.insert "c" ((createObject.addStringToObject "_id" "d").addStringToObject "a" "x"))
        (.fresh _) ⟨⟨rfl, fun _ _ _ d hd => nomatch (show d ∈ [] from hd)⟩, trivial⟩ rfl)
      ⟨trivial, Or.inl rfl⟩ rfl
  exact ⟨_, hreach, by decide, by decide,
    rebuild_index_agrees PredicateEngine.unchanged_keepsIds hreach (by decide)⟩

/-- Along every run whose writes succeed and name each collection by the file it reaches, whose
inserts add fresh objects that read as no tombstone and whose updates answer none, under an
engine whose update keeps `_id`s, `trigger_compaction` on a collection other than `_auth`,
`_schemas` and `_indexes`, named by the file it reaches, rewrites its log into one that replays,
`_id` by `_id`, to what the old log replayed to, whether the rewrite succeeds or not; when it
does, the new log holds one frame per document in memory. -/
theorem compaction_keeps_replay {E : PredicateEngine} (hE : E.KeepsIds) {db : Db}
    (h : Reachable E (durableCalls E) db) (env : Env) {coll : String} (hc : ¬ reserved coll)
    (hres : Engine.fileKey coll = coll) :
    (∀ u, (replay (Engine.logFrames (db.triggerCompaction env coll).2.storage coll)).lookup u =
      (replay (Engine.logFrames db.storage coll)).lookup u) ∧
    (env.ioOk = true -> coll ∈ db.memoryStore ->
      (Engine.logFrames (db.triggerCompaction env coll).2.storage coll).length =
        (children (db.memoryStore.get coll)).length) := by
  have hd := durable_of_durableCalls hE h hc hres
  rw [Db.triggerCompaction, Db.compactCollection_snd]
  refine ⟨fun u => ?_, fun hok hmem => ?_⟩
  · cases hok : env.ioOk
    · cases db.memoryStore.lookup coll <;> rfl
    · have hd' := Db.durable_compactCollection hd coll hres hres
      rw [Db.compactCollection_snd] at hd'
      rw [hd'.replays u, hd.replays u]
  · obtain ⟨k, hl⟩ := hd.indexed.array hmem
    simp only [hl, hok, Engine.logFrames_compact_self, List.length_map]
    rfl

theorem compaction_after_insert_and_remove :
    ∃ db, Reachable PredicateEngine.unchanged (durableCalls PredicateEngine.unchanged) db ∧
      (Engine.logFrames db.storage "c").length = 2 ∧
      (∀ u, (replay (Engine.logFrames (db.triggerCompaction ⟨0, 0, 0, true⟩ "c").2.storage "c")).lookup u =
        (replay (Engine.logFrames db.storage "c")).lookup u) ∧
      (Engine.logFrames (db.triggerCompaction ⟨0, 0, 0, true⟩ "c").2.storage "c").length =
        (children (db.memoryStore.get "c")).length := by
  have hins : Reachable PredicateEngine.unchanged (durableCalls PredicateEngine.unchanged)
      (((Db.fresh ⟨0, 0, 0, true⟩).getCollection "c").inserted "c" "d"
        (createObject.addStringToObject "_id" "d") true) :=
    .call ⟨0, 0, 0, true⟩ (.insert "c" (createObject.addStringToObject "_id" "d")) (.fresh _)
      ⟨by decide, rfl, ⟨rfl, fun _ _ _ d hd => nomatch (show d ∈ [] from hd)⟩, rfl⟩ rfl
  have hrem := Reachable.call ⟨0, 0, 0, true⟩ (.remove "c" (createObject.addStringToObject "_id" "d"))
    hins ⟨by decide, rfl⟩ rfl
  have hkeep := compaction_keeps_replay PredicateEngine.unchanged_keepsIds hrem ⟨0, 0, 0, true⟩
    (show ¬ reserved "c" by decide) (by decide)
  exact ⟨_, hrem, by decide, hkeep.1, hkeep.2 rfl (by decide)⟩

end AevumDb
