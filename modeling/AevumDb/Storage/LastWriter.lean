import AevumDb.Storage.Restart

/-!
# The replay is last writer wins

The replay loop of load_all keeps, for each string `_id`, the last frame that
carries it, and drops it again when that frame is a tombstone.  This module
states that reading of a log as its own definition, `lastWriterWins`, and
proves the replay equal to it, frame by frame.  load_all returns on the log of
every collection but the reserved ones, and stores exactly the last writers.  A
tombstone for an `_id` the log does not hold changes nothing, and a log replaced
by one frame per rebuilt document, as compaction writes it, rebuilds the same
documents when every frame is what cJSON_Parse reads back from its own printed
text, as the frames `Db` appends are.

Neither holds of every log.  Compaction prints each document again, and
print_number keeps fifteen digits of `0.30000000000000004`, so the rebuilt
document holds `0.3`; and load_all reads an `_auth` document whose `role` is not
a string through a `NULL` pointer (`compaction_and_auth_log_diverge`).
-/

namespace AevumDb

open Item

namespace Recovery

def lastWriterWins (log : List Frame) (u : String) : Option Item :=
  ((log.filterMap id).reverse.find? fun d => d.docId == some u).filter fun d => !isDeleted d

theorem lastWriterWins_append_none (log : List Frame) (u : String) :
    lastWriterWins (log ++ [none]) u = lastWriterWins log u := by
  simp [lastWriterWins]

theorem lastWriterWins_append_some (log : List Frame) (d : Item) (u : String) :
    lastWriterWins (log ++ [some d]) u =
      if d.docId = some u then (if isDeleted d then none else some d) else lastWriterWins log u := by
  by_cases hd : d.docId = some u
  · cases hdel : isDeleted d <;> simp [lastWriterWins, hd, hdel, Option.filter]
  · simp [lastWriterWins, hd]

theorem replay_lookup (log : List Frame) (u : String) :
    (replay log).lookup u = lastWriterWins log u := by
  induction log using List.reverseRecOn with
  | nil => rfl
  | append_singleton log f ih =>
      rw [replay_append]
      cases f with
      | none => rw [lastWriterWins_append_none, ← ih]; rfl
      | some d =>
          rw [lastWriterWins_append_some, replayFrame]
          cases hd : d.docId with
          | none => simpa using ih
          | some v =>
              by_cases hv : v = u
              · subst hv
                cases hdel : isDeleted d <;>
                  simp_all [isDeleted, AList.lookup_insert, AList.lookup_erase]
              · have hv' : u ≠ v := Ne.symm hv
                simp only [Option.some.injEq, hv, if_false, ← ih]
                split
                · exact AList.lookup_erase_ne hv'
                · exact AList.lookup_insert_ne hv'

theorem lastWriterWins_eq_some {log : List Frame} {u : String} {d : Item}
    (h : lastWriterWins log u = some d) :
    d.docId = some u ∧ isDeleted d = false ∧ some d ∈ log := by
  unfold lastWriterWins at h
  cases hf : (log.filterMap id).reverse.find? (fun d => d.docId == some u) with
  | none => simp [hf] at h
  | some e =>
      rw [hf] at h
      obtain ⟨rfl, hlive⟩ : e = d ∧ isDeleted e = false := by
        cases hdel : isDeleted e <;> simp_all [Option.filter]
      refine ⟨by simpa using List.find?_some hf, hlive, ?_⟩
      simpa using List.mem_of_find?_eq_some hf

theorem docId_of_mem_replay {log : List Frame} {e : Σ _ : String, Item} (h : e ∈ (replay log).entries) :
    e.2.docId = some e.1 ∧ isDeleted e.2 = false ∧ some e.2 ∈ log :=
  lastWriterWins_eq_some ((replay_lookup log e.1).symm.trans (AList.mem_lookup_iff.mpr h))

theorem mem_replay_values_iff {log : List Frame} {d : Item} :
    d ∈ (replay log).entries.map (·.2) ↔ ∃ u, lastWriterWins log u = some d := by
  simp only [List.mem_map]
  constructor
  · rintro ⟨⟨u, d'⟩, he, rfl⟩
    exact ⟨u, (replay_lookup log u).symm.trans (AList.mem_lookup_iff.mpr he)⟩
  · rintro ⟨u, hu⟩
    exact ⟨⟨u, d⟩, AList.mem_lookup_iff.mp ((replay_lookup log u).trans hu), rfl⟩

theorem replay_tombstone_absent {log : List Frame} {u : String} (h : lastWriterWins log u = none) :
    replay (log ++ [some (reparse (tombstone u))]) = replay log := by
  have hid : (reparse (tombstone u)).docId = some u := rfl
  have hdel : isTrue ((reparse (tombstone u)).getObjectItem "_deleted") = true := rfl
  have habsent : u ∉ (replay log).entries.keys :=
    fun hk => AList.lookup_eq_none.mp ((replay_lookup log u).trans h) (AList.mem_keys.mp hk)
  rw [replay_append, replayFrame, hid]
  simp only [hdel, if_true]
  exact AList.ext (List.kerase_of_not_mem_keys habsent)

variable {order : String -> List Item -> List Item} {name : String}

theorem collectionArray_compacted (horder : ∀ l, (order name l).Perm l) {log : List Frame}
    (hparsed : ∀ d, some d ∈ log -> reparse d = d) :
    (collectionArray order name ((collectionArray order name log).child.map fun d => some (reparse d))).child.Perm
      (collectionArray order name log).child := by
  set docs := (collectionArray order name log).child
  have hlast : ∀ d ∈ docs, isDeleted d = false ∧ reparse d = d ∧ d.docId.isSome := by
    intro d hd
    obtain ⟨u, hu⟩ := mem_replay_values_iff.mp ((horder _).subset hd)
    obtain ⟨hid, hlive, hmem⟩ := lastWriterWins_eq_some hu
    exact ⟨hlive, hparsed d hmem, by rw [hid]; rfl⟩
  have hobj : ∀ d ∈ docs, d.type = .object := fun d hd =>
    type_of_docId_reparse (by rw [(hlast d hd).2.1]; exact (hlast d hd).2.2)
  have hnodup : (docs.map docId).Nodup := by
    have hkeys : ((replay log).entries.map (·.2)).map docId = (replay log).entries.keys.map some := by
      rw [List.map_map, List.keys, List.map_map]
      exact List.map_congr_left fun e he => (docId_of_mem_replay he).1
    refine ((horder _).map docId).nodup_iff.mpr ?_
    rw [hkeys]
    exact (replay log).nodupKeys.map (Option.some_injective _)
  have hrep : Replays (docs.map fun d => some (reparse d)) (Db.primaryIndex docs) := by
    simpa using Replays.nil.foldl hobj fun d hd => (hlast d hd).1
  have hperm := hrep.perm (Indexed.primaryIndex hobj (fun d hd => (hlast d hd).2.2) hnodup)
  rw [List.map_congr_left fun d hd => (hlast d hd).2.1, List.map_id'] at hperm
  exact (horder _).trans hperm

end Recovery

end AevumDb
