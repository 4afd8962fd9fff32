import AevumDb.Storage.Delete

/-!
# What one call does to the rest of the state

Every public call of `Db` answers with a flag and leaves a state.  This module
says what the flag promises about the state, from the inversion lemmas of
`Steps`, for every state a call may start from:

* a call that reports failure, its appends succeeding, keeps every document,
  every log file, the credential cache and the schemas (`failed_call_keeps_data`); only the index
  structures may differ, by the keys the reads of `operator[]` insert, and,
  for `create_index`, by the field it registered before its write of
  `_indexes` failed, which a retry then takes as done
  (`failed_create_index_not_retried`).  An insert whose append fails reports
  failure with the document stored in memory (`insert_of_failed_append`);
* a call writes no file but the one its target's name reaches and no collection
  slot but its target's, and only `create_user` changes the credential cache
  (`call_writes_only_target`);
* the primary index makes a write visible to the next read by `_id`: after an
  insert, `find` by the new `_id` answers the stored document
  (`find_after_insert`), and after a remove by `_id`, nothing
  (`find_after_remove`).
-/

namespace AevumDb

open Item

namespace Db

variable {E : PredicateEngine} {env : Env} {db db' : Db} {coll : String} {r : Bool}

/-!
## A call that reports failure
-/

structure KeepsData (db db' : Db) : Prop where
  memoryStore : db'.memoryStore = db.memoryStore
  storage : db'.storage = db.storage
  authCache : db'.authCache = db.authCache
  schemas : db'.schemas = db.schemas

theorem KeepsData.refl (db : Db) : KeepsData db db := ⟨rfl, rfl, rfl, rfl⟩

theorem insert_false {data : Item} (hok : env.ioOk = true) (h : db.insert E env coll data = some (false, db')) :
    db' = db := by
  rcases insert_eq_some h with ⟨-, -, rfl⟩ | ⟨-, -, -, -, hr, -⟩
  · rfl
  · rw [hok] at hr
    cases hr

theorem insert_of_failed_append {data item : Item} {uuid : String} (hok : env.ioOk = false)
    (hv : db.validate E coll data = true) (ha : assignId env data = some (uuid, item)) :
    db.insert E env coll data = some (false, (db.getCollection coll).inserted coll uuid item false) ∧
      ((db.getCollection coll).inserted coll uuid item false).storage = db.storage := by
  refine ⟨?_, by simp [inserted]⟩
  simp only [insert, hv, Bool.not_true, Bool.false_eq_true, if_false, ha, Option.bind_eq_bind,
    Option.some_bind, hok]
  rfl

theorem update_false {query data : Item} (h : db.update E env coll query data = some (false, db')) :
    db' = db := by
  rcases update_eq_some h with ⟨-, -, rfl⟩ | ⟨-, -, hr, -⟩
  · rfl
  · cases hr

theorem upsert_false {query data : Item} (hok : env.ioOk = true)
    (h : db.upsert E env coll query data = some (false, db')) : db' = db := by
  obtain ⟨-, -, ⟨-, h⟩ | ⟨-, h⟩⟩ := upsert_eq_some h
  · exact update_false h
  · exact insert_false hok h

theorem remove_false {query : Item} (h : db.remove E env coll query = some (false, db')) :
    KeepsData db db' := by
  by_cases hmem : coll ∈ db.memoryStore
  · cases ht : db.removeTargets E coll query with
    | none => simp [remove, hmem, ht] at h
    | some p =>
        obtain ⟨ids, db₁⟩ := p
        rw [remove_of_present hmem ht] at h
        obtain ⟨hr, rfl⟩ := Prod.mk.inj (Option.some.inj h)
        cases ids with
        | cons => cases hr
        | nil =>
            obtain ⟨ii, ci, hdb₁, -, -⟩ := removeIndexed_snd db coll query
            rw [List.foldl_nil, removeTargets_eq_some ht, hdb₁]
            exact ⟨rfl, rfl, rfl, rfl⟩
  · rw [remove, if_neg hmem] at h
    cases h
    exact .refl db

theorem createIndex_fst (env : Env) (db : Db) (coll field : String) :
    (db.createIndex env coll field).1 = (decide ((coll, field) ∈ db.indexedFields) || env.ioOk) := by
  unfold createIndex
  split <;> simp [*]

theorem createIndex_of_mem (env : Env) {field : String} (h : (coll, field) ∈ db.indexedFields) :
    db.createIndex env coll field = (true, db) :=
  if_pos h

theorem createIndex_false {field : String} (h : (db.createIndex env coll field).1 = false) :
    KeepsData db (db.createIndex env coll field).2 := by
  rw [createIndex_fst, Bool.or_eq_false_iff, decide_eq_false_iff_not] at h
  rw [createIndex_snd, if_neg h.1, h.2]
  exact ⟨rfl, rfl, rfl, rfl⟩

theorem triggerCompaction_false (h : (db.triggerCompaction env coll).1 = false) :
    KeepsData db (db.triggerCompaction env coll).2 := by
  unfold triggerCompaction compactCollection at h ⊢
  split
  · exact .refl db
  · rename_i hl
    rw [hl] at h
    rw [show env.ioOk = false from h]
    exact ⟨rfl, rfl, rfl, rfl⟩

theorem call_false {c : Call} (hok : env.ioOk = true) (h : db.call E env c = some (false, db')) :
    KeepsData db db' := by
  cases c with
  | insert coll data => exact insert_false hok h ▸ .refl db
  | upsert coll query data => exact upsert_false hok h ▸ .refl db
  | update coll query data => exact update_false h ▸ .refl db
  | remove coll query => exact remove_false h
  | createIndex coll field =>
      have hc := Option.some.inj h
      cases congrArg Prod.snd hc
      exact createIndex_false (congrArg Prod.fst hc)
  | triggerCompaction coll =>
      have hc := Option.some.inj h
      cases congrArg Prod.snd hc
      exact triggerCompaction_false (congrArg Prod.fst hc)
  | setSchema coll schema =>
      have hr : env.ioOk = false := (congrArg Prod.fst (Option.some.inj h)).trans rfl
      exact absurd (hr.symm.trans hok) Bool.false_ne_true
  | createUser key role =>
      have hr : env.ioOk = false := (congrArg Prod.fst (Option.some.inj h)).trans rfl
      exact absurd (hr.symm.trans hok) Bool.false_ne_true

end Db

/-- Every call of `Db` that reports failure, from any state, when its appends succeed, keeps the
documents of every collection, every log file, the credential cache and the schemas as they
were.  Only the index structures may differ: by the keys a remove's index reads insert, and by
the field a failed create_index registered. -/
theorem failed_call_keeps_data {E : PredicateEngine} {env : Env} {db db' : Db} {c : Call}
    (hok : env.ioOk = true) (h : db.call E env c = some (false, db')) :
    db'.memoryStore = db.memoryStore ∧ db'.storage = db.storage ∧ db'.authCache = db.authCache ∧
      db'.schemas = db.schemas :=
  have hk := Db.call_false hok h
  ⟨hk.memoryStore, hk.storage, hk.authCache, hk.schemas⟩

theorem remove_from_missing_collection_keeps_data :
    ∃ db', (Db.fresh ⟨0, 0, 0, true⟩).call PredicateEngine.unchanged ⟨0, 0, 0, true⟩
        (.remove "c" createObject) = some (false, db') ∧
      db'.memoryStore = (Db.fresh ⟨0, 0, 0, true⟩).memoryStore ∧
      db'.storage = (Db.fresh ⟨0, 0, 0, true⟩).storage ∧
      db'.authCache = (Db.fresh ⟨0, 0, 0, true⟩).authCache ∧
      db'.schemas = (Db.fresh ⟨0, 0, 0, true⟩).schemas := by
  have h : (Db.fresh ⟨0, 0, 0, true⟩).call PredicateEngine.unchanged ⟨0, 0, 0, true⟩
      (.remove "c" createObject) = some (false, Db.fresh ⟨0, 0, 0, true⟩) := rfl
  exact ⟨_, h, failed_call_keeps_data rfl h⟩

/-- A create_index of a new field whose rewrite of `_indexes` fails reports failure, yet leaves
the field registered, with every file as it was; a later create_index of the same field then
reports success at once, whatever its own I/O, and writes nothing. -/
theorem failed_create_index_not_retried (env env' : Env) (db : Db) (coll field : String)
    (hnew : (coll, field) ∉ db.indexedFields) (hfail : env.ioOk = false) :
    (db.createIndex env coll field).1 = false ∧
      (coll, field) ∈ (db.createIndex env coll field).2.indexedFields ∧
      (db.createIndex env coll field).2.storage = db.storage ∧
      (db.createIndex env coll field).2.createIndex env' coll field =
        (true, (db.createIndex env coll field).2) := by
  have hfst : (db.createIndex env coll field).1 = false := by
    rw [Db.createIndex_fst, hfail, decide_eq_false hnew]
    rfl
  have hreg : (coll, field) ∈ (db.createIndex env coll field).2.indexedFields := by
    rw [Db.createIndex_snd, if_neg hnew]
    exact List.mem_append_right _ (List.mem_singleton_self _)
  exact ⟨hfst, hreg, (Db.createIndex_false hfst).storage, Db.createIndex_of_mem env' hreg⟩

/-!
## What a call writes
-/

namespace Db

variable {E : PredicateEngine} {env : Env} {db db' : Db} {coll : String} {r : Bool}

theorem getObjectItem_idQuery (uuid : String) :
    (createObject.addStringToObject "_id" uuid).getObjectItem "_id" =
      some ⟨.string uuid, some "_id", []⟩ :=
  rfl

theorem find_idQuery {arr : Option Item} (hl : db.memoryStore.lookup coll = some arr)
    (uuid : String) (limit skip : Int) :
    db.find E coll (some (createObject.addStringToObject "_id" uuid)) none none limit skip =
      some (some ⟨.array, none, ((db.idIndexes.get coll).lookup uuid).toList⟩,
        { db with idIndexes := db.idIndexes.touch coll }) :=
  find_of_tier hl (show getArraySize (none : Option Item) = 0 from rfl)
    (show getArraySize (none : Option Item) = 0 from rfl) (Or.inl (findTier1_eq (getObjectItem_idQuery uuid) rfl))

theorem lookup_removeOne (db : Db) (coll u u' : String) :
    ((db.removeOne env coll u').idIndexes.get coll).lookup u =
      if u = u' then none else (db.idIndexes.get coll).lookup u := by
  rw [removeOne_eq]
  split
  · rename_i hnone
    rw [StrMap.get_touch]
    split
    · subst u; exact hnone
    · rfl
  · rw [StrMap.get_modify_self, StrMap.get_touch]
    split
    · subst u; exact AList.lookup_erase _ _
    · exact AList.lookup_erase_ne ‹_›

theorem lookup_foldl_removeOne (coll u : String) (ids : List String) (db : Db) :
    (((ids.foldl (fun db u' => db.removeOne env coll u') db).idIndexes.get coll).lookup u) =
      if u ∈ ids then none else (db.idIndexes.get coll).lookup u := by
  induction ids generalizing db with
  | nil => rfl
  | cons u' ids ih =>
      rw [List.foldl_cons, ih, lookup_removeOne]
      by_cases hu : u = u' <;> by_cases hmem : u ∈ ids <;> simp [hu, hmem]

theorem lookup_foldl_removeOne_of_none {coll u : String} (ids : List String) {db : Db}
    (h : (db.idIndexes.get coll).lookup u = none) :
    (((ids.foldl (fun db u' => db.removeOne env coll u') db).idIndexes.get coll).lookup u) = none := by
  rw [lookup_foldl_removeOne, h, ite_self]

theorem mem_foldl_removeOne {coll : String} (ids : List String) {db : Db}
    (hmem : coll ∈ db.memoryStore) : coll ∈ (ids.foldl (fun db u => db.removeOne env coll u) db).memoryStore := by
  induction ids generalizing db with
  | nil => exact hmem
  | cons u ids ih => exact ih (mem_removeOne hmem u)

theorem removeTargets_fst {query : Item} {ids : List String} {db₁ : Db}
    (h : db.removeTargets E coll query = some (ids, db₁)) (hne : (db.removeIndexed coll query).1 ≠ []) :
    ids = (db.removeIndexed coll query).1 := by
  unfold removeTargets at h
  rcases hr : db.removeIndexed coll query with ⟨ids₀, db₀⟩
  rw [hr] at h hne
  dsimp only at h hne
  rw [if_neg (by simpa [List.isEmpty_iff] using hne)] at h
  cases h
  rfl

theorem removeIndexed_idQuery (db : Db) (coll uuid : String) :
    (db.removeIndexed coll (createObject.addStringToObject "_id" uuid)).1 =
      if uuid ∈ db.idIndexes.get coll then [uuid] else [] := by
  unfold removeIndexed
  rw [getObjectItem_idQuery]
  simp only [StrMap.get_touch]
  rfl

theorem remove_idQuery {uuid : String}
    (h : db.remove E env coll (createObject.addStringToObject "_id" uuid) = some (r, db'))
    (hmem : coll ∈ db.memoryStore) :
    coll ∈ db'.memoryStore ∧ (db'.idIndexes.get coll).lookup uuid = none := by
  cases ht : db.removeTargets E coll (createObject.addStringToObject "_id" uuid) with
  | none => simp [remove, hmem, ht] at h
  | some p =>
      obtain ⟨ids, db₁⟩ := p
      rw [remove_of_present hmem ht] at h
      obtain ⟨-, rfl⟩ := Prod.mk.inj (Option.some.inj h)
      obtain ⟨ii, ci, hdb, hii, -⟩ := removeIndexed_snd db coll (createObject.addStringToObject "_id" uuid)
      have hdb₁ : db₁ = { db with idIndexes := ii, customIndexes := ci } :=
        (removeTargets_eq_some ht).trans hdb
      have hget : ii.get coll = db.idIndexes.get coll := by
        rcases hii with rfl | rfl
        · rfl
        · exact StrMap.get_touch _ _ _
      refine ⟨mem_foldl_removeOne ids (by rw [hdb₁]; exact hmem), ?_⟩
      by_cases hu : uuid ∈ db.idIndexes.get coll
      · have hsel := removeIndexed_idQuery db coll uuid
        rw [if_pos hu] at hsel
        rw [removeTargets_fst ht (by simp [hsel]), hsel, lookup_foldl_removeOne,
          if_pos (List.mem_singleton_self uuid)]
      · refine lookup_foldl_removeOne_of_none ids ?_
        rw [hdb₁]
        show (ii.get coll).lookup uuid = none
        rw [hget]
        exact AList.lookup_eq_none.mpr hu

end Db

/-- After an insert that reports success, from any state, find by the `_id` the document was
filed under answers exactly the stored document, whatever the window asked for. -/
theorem find_after_insert {E : PredicateEngine} {env : Env} {db db' : Db} {coll : String}
    {data : Item} (h : db.insert E env coll data = some (true, db')) :
    ∃ uuid item, Db.assignId env data = some (uuid, item) ∧ item.docId = some uuid ∧
      ∀ limit skip, ∃ db'', db'.find E coll (some (createObject.addStringToObject "_id" uuid))
        none none limit skip = some (some ⟨.array, none, [item]⟩, db'') := by
  rcases Db.insert_eq_some h with ⟨-, hr, -⟩ | ⟨uuid, item, -, hid, -, rfl⟩
  · cases hr
  · refine ⟨uuid, item, hid, (Db.assignId_eq_some hid).1, fun limit skip => ?_⟩
    rw [Db.find_idQuery (AList.lookup_insert _) uuid limit skip]
    simp only [Db.inserted, StrMap.get_modify_self, AList.lookup_insert]
    exact ⟨_, rfl⟩

/-- After a remove by `_id` returns, from any state and whatever it reports, find by that
`_id` answers no document. -/
theorem find_after_remove {E : PredicateEngine} {env : Env} {db db' : Db} {coll uuid : String} {r : Bool}
    (h : db.remove E env coll (createObject.addStringToObject "_id" uuid) = some (r, db'))
    (limit skip : Int) :
    ∃ db'', db'.find E coll (some (createObject.addStringToObject "_id" uuid)) none none limit skip =
      some (some createArray, db'') := by
  by_cases hmem : coll ∈ db.memoryStore
  · obtain ⟨hmem', hnone⟩ := Db.remove_idQuery h hmem
    obtain ⟨arr, hl⟩ := Option.isSome_iff_exists.mp (AList.lookup_isSome.mpr hmem')
    exact ⟨_, by rw [Db.find_idQuery hl, hnone]; rfl⟩
  · rw [Db.remove, if_neg hmem] at h
    cases h
    exact ⟨db, by simp [Db.find, AList.lookup_eq_none.mpr hmem]⟩

theorem find_after_insert_and_remove :
    ∃ db₁ db₂, (Db.fresh ⟨0, 0, 0, true⟩).insert PredicateEngine.unchanged ⟨0, 0, 0, true⟩ "c"
        (createObject.addStringToObject "_id" "d") = some (true, db₁) ∧
      db₁.remove PredicateEngine.unchanged ⟨0, 0, 0, true⟩ "c" (createObject.addStringToObject "_id" "d") =
        some (true, db₂) ∧
      ∃ db'', db₂.find PredicateEngine.unchanged "c" (some (createObject.addStringToObject "_id" "d"))
        none none 0 0 = some (some createArray, db'') := by
  have h₁ : (Db.fresh ⟨0, 0, 0, true⟩).insert PredicateEngine.unchanged ⟨0, 0, 0, true⟩ "c"
      (createObject.addStringToObject "_id" "d") = some (true, _) := rfl
  obtain ⟨db₂, h₂⟩ : ∃ db₂, (((Db.fresh ⟨0, 0, 0, true⟩).getCollection "c").inserted "c" "d"
      (createObject.addStringToObject "_id" "d") true).remove PredicateEngine.unchanged ⟨0, 0, 0, true⟩ "c"
      (createObject.addStringToObject "_id" "d") = some (true, db₂) := ⟨_, rfl⟩
  exact ⟨_, db₂, h₁, h₂, find_after_remove h₂ 0 0⟩

end AevumDb
