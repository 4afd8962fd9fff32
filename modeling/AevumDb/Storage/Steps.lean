import AevumDb.Storage.Run

/-!
# What each call writes

One inversion lemma per operation of `Db`: the state a call that returns leaves,
as a record update of the state it started from.  The invariants of the later
modules are derived from these lemmas, not from the definitions, so that a
change to one operation touches one lemma here.
-/

namespace AevumDb

open Item

namespace Db

variable {E : PredicateEngine} {env : Env} {db db' : Db} {coll : String} {r : Bool}

/-!
## Collections and secondary indexes
-/

theorem memoryStore_lookup_getCollection (db : Db) (name c : String) :
    (db.getCollection name).memoryStore.lookup c =
      if c = name ∧ name ∉ db.memoryStore then some (some createArray)
      else db.memoryStore.lookup c := by
  unfold getCollection
  by_cases hmem : name ∈ db.memoryStore
  · simp [hmem]
  · by_cases hc : c = name
    · subst hc; simp [hmem]
    · simp [hmem, hc, AList.lookup_insert_ne hc]

theorem idIndexes_get_getCollection (db : Db) (name c : String) :
    (db.getCollection name).idIndexes.get c =
      if c = name ∧ name ∉ db.memoryStore then ∅ else db.idIndexes.get c := by
  unfold getCollection
  by_cases hmem : name ∈ db.memoryStore
  · simp [hmem]
  · by_cases hc : c = name
    · subst hc; simp [hmem]
    · simp [hmem, hc, StrMap.get_insert_ne _ _ hc]

@[simp] theorem storage_getCollection (db : Db) (name : String) :
    (db.getCollection name).storage = db.storage := by
  unfold getCollection; split <;> rfl

@[simp] theorem schemas_getCollection (db : Db) (name : String) :
    (db.getCollection name).schemas = db.schemas := by
  unfold getCollection; split <;> rfl

@[simp] theorem authCache_getCollection (db : Db) (name : String) :
    (db.getCollection name).authCache = db.authCache := by
  unfold getCollection; split <;> rfl

@[simp] theorem indexedFields_getCollection (db : Db) (name : String) :
    (db.getCollection name).indexedFields = db.indexedFields := by
  unfold getCollection; split <;> rfl

@[simp] theorem customIndexes_getCollection (db : Db) (name : String) :
    (db.getCollection name).customIndexes = db.customIndexes := by
  unfold getCollection; split <;> rfl

theorem mem_getCollection (db : Db) (name : String) : name ∈ (db.getCollection name).memoryStore := by
  unfold getCollection; split
  · assumption
  · exact (AList.mem_insert _).mpr (Or.inl rfl)

theorem children_getCollection (db : Db) (name : String) :
    children ((db.getCollection name).memoryStore.get name) = children (db.memoryStore.get name) := by
  unfold getCollection; split
  · rfl
  · simp [StrMap.get, AList.lookup_eq_none.mpr ‹_›, createArray, children]

theorem foldl_updateCustomIndex (db : Db) (coll : String) (docs : List Item) (add : Bool) :
    docs.foldl (fun db item => db.updateCustomIndex coll item add) db =
      { db with
        customIndexes :=
          docs.foldl (fun ci item => CustomIndexes.update ci db.indexedFields coll item add)
            db.customIndexes } := by
  induction docs generalizing db with
  | nil => rfl
  | cons item docs ih => exact ih _

theorem createIndex_snd (env : Env) (db : Db) (coll field : String) :
    (db.createIndex env coll field).2 =
      if (coll, field) ∈ db.indexedFields then db else
        let fields := db.indexedFields ++ [(coll, field)]
        { db with
          indexedFields := fields,
          customIndexes := if coll ∈ db.memoryStore then
              (children (db.memoryStore.get coll)).foldl
                (fun ci item => CustomIndexes.update ci fields coll item true) db.customIndexes
            else db.customIndexes,
          storage := Engine.compact db.storage "_indexes" [indexRecords fields] env.ioOk } := by
  unfold createIndex
  split
  · rfl
  · dsimp only
    split <;> simp only [foldl_updateCustomIndex, ite_true, ite_false, *]

theorem createUser_snd (env : Env) (db : Db) (key role : String) :
    (db.createUser env key role).2 =
      let doc := userDoc env (hashKey key) role
      let db₁ := getCollection { db with
        authCache := db.authCache.insert (hashKey key) (parseRole role),
        storage := Engine.append db.storage "_auth" doc env.ioOk } "_auth"
      { db₁ with
        memoryStore := db₁.memoryStore.insert "_auth" (addItemToArray (db₁.memoryStore.get "_auth") doc) } :=
  rfl

@[simp] theorem authCache_createUser (env : Env) (db : Db) (key role : String) :
    (db.createUser env key role).2.authCache = db.authCache.insert (hashKey key) (parseRole role) := by
  rw [createUser_snd]
  exact authCache_getCollection _ _

theorem storage_createUser (env : Env) (db : Db) (key role : String) :
    (db.createUser env key role).2.storage = Engine.append db.storage "_auth" (userDoc env (hashKey key) role) env.ioOk := by
  rw [createUser_snd]
  exact storage_getCollection _ _

@[simp] theorem schemas_createUser (env : Env) (db : Db) (key role : String) :
    (db.createUser env key role).2.schemas = db.schemas := by
  rw [createUser_snd]
  exact schemas_getCollection _ _

@[simp] theorem indexedFields_createUser (env : Env) (db : Db) (key role : String) :
    (db.createUser env key role).2.indexedFields = db.indexedFields := by
  rw [createUser_snd]
  exact indexedFields_getCollection _ _

@[simp] theorem customIndexes_createUser (env : Env) (db : Db) (key role : String) :
    (db.createUser env key role).2.customIndexes = db.customIndexes := by
  rw [createUser_snd]
  exact customIndexes_getCollection _ _

theorem createUser_other (env : Env) (db : Db) (key role : String) {c : String}
    (hc : c ≠ "_auth") :
    (db.createUser env key role).2.memoryStore.lookup c = db.memoryStore.lookup c ∧
      (db.createUser env key role).2.idIndexes.get c = db.idIndexes.get c ∧
      (db.createUser env key role).2.storage.get c = db.storage.get c := by
  unfold createUser
  dsimp only
  rw [AList.lookup_insert_ne hc, memoryStore_lookup_getCollection, idIndexes_get_getCollection,
    if_neg (fun h => hc h.1), if_neg (fun h => hc h.1)]
  rw [storage_getCollection]
  exact ⟨rfl, rfl, Engine.get_append_ne _ _ _ (by rwa [Engine.fileKey_auth])⟩

/-!
## Inserting
-/

theorem assignId_eq_some {data item : Item} {uuid : String}
    (h : assignId env data = some (uuid, item)) :
    item.docId = some uuid ∧ item.type = data.type := by
  unfold assignId at h
  split at h
  · obtain ⟨uuid', hid, heq⟩ := Option.map_eq_some'.mp h
    cases heq
    exact ⟨hid, rfl⟩
  · rename_i hnone
    obtain ⟨rfl, rfl⟩ := Prod.mk.inj (Option.some.inj h)
    have hfind : data.getObjectItem "_id" = none := by
      simpa [hasObjectItem] using hnone
    refine ⟨?_, rfl⟩
    simp only [docId, stringMember, addStringToObject, getObjectItem_addItemToObject, hfind]
    rfl

def inserted (db : Db) (coll uuid : String) (item : Item) (ok : Bool) : Db :=
  { db with memoryStore := db.memoryStore.insert coll (addItemToArray (db.memoryStore.get coll) item),
            idIndexes := db.idIndexes.modify coll (·.insert uuid item),
            customIndexes := CustomIndexes.update db.customIndexes db.indexedFields coll item true,
            storage := Engine.append db.storage coll item ok }

theorem insert_eq_some {data : Item} (h : db.insert E env coll data = some (r, db')) :
    (db.validate E coll data = false ∧ r = false ∧ db' = db) ∨
      exists uuid item, db.validate E coll data = true ∧ assignId env data = some (uuid, item) ∧
        r = env.ioOk ∧ db' = (db.getCollection coll).inserted coll uuid item env.ioOk := by
  unfold insert at h
  cases hv : db.validate E coll data with
  | false =>
      simp only [hv, Bool.not_false, ite_true, Option.some.injEq, Prod.mk.injEq] at h
      exact Or.inl ⟨rfl, h.1.symm, h.2.symm⟩
  | true =>
      right
      simp only [hv, Bool.not_true, Bool.false_eq_true, if_false] at h
      cases ha : assignId env data with
      | none => simp [ha] at h
      | some p =>
          obtain ⟨uuid, item⟩ := p
          simp only [ha, Option.bind_eq_bind, Option.some_bind, Option.some.injEq,
            Prod.mk.injEq] at h
          exact ⟨uuid, item, rfl, rfl, h.1.symm, h.2.symm⟩

/-!
## Updating
-/

def updatedCollection (E : PredicateEngine) (arr query data : Item) : Option Item :=
  (E.update (reparse arr) (reparse query) (reparse data)).map reparse

theorem update_eq_some {query data : Item} (h : db.update E env coll query data = some (r, db')) :
    (db.memoryStore.lookup coll = none ∧ r = false ∧ db' = db) ∨
      exists arr, db.memoryStore.lookup coll = some (some arr) ∧ r = true ∧
        let stored := updatedCollection E arr query data
        let db₁ := { db with memoryStore := db.memoryStore.insert coll stored }
        db' = ((db₁.rebuildIndex coll stored).compactCollection coll env.ioOk).2 := by
  unfold update at h
  split at h
  · rename_i hl
    simp only [Option.some.injEq, Prod.mk.injEq] at h
    exact Or.inl ⟨hl, h.1.symm, h.2.symm⟩
  · cases h
  · rename_i arr hl
    simp only [Option.some.injEq, Prod.mk.injEq] at h
    exact Or.inr ⟨arr, hl, h.1.symm, h.2.symm⟩

theorem upsert_eq_some {query data : Item} (h : db.upsert E env coll query data = some (r, db')) :
    exists n, db.count E coll (some query) = some n ∧
      (0 < n ∧ db.update E env coll query data = some (r, db') ∨
        n ≤ 0 ∧ db.insert E env coll data = some (r, db')) := by
  unfold upsert at h
  cases hc : db.count E coll (some query) with
  | none => simp [hc] at h
  | some n =>
      simp only [hc, Option.bind_eq_bind, Option.some_bind] at h
      refine ⟨n, rfl, ?_⟩
      split at h
      · exact Or.inl ⟨‹_›, h⟩
      · exact Or.inr ⟨Int.not_lt.mp ‹_›, h⟩

/-!
## Removing
-/

theorem removeIndexed_snd (db : Db) (coll : String) (query : Item) :
    exists ii ci, (db.removeIndexed coll query).2 = { db with idIndexes := ii, customIndexes := ci } ∧
      (ii = db.idIndexes ∨ ii = db.idIndexes.touch coll) ∧
      (ci = db.customIndexes ∨ ci = db.customIndexes.touch coll) := by
  unfold removeIndexed
  split
  · exact ⟨_, _, rfl, Or.inr rfl, Or.inl rfl⟩
  · split
    · dsimp only
      split
      · split <;> exact ⟨_, _, rfl, Or.inl rfl, Or.inr rfl⟩
      · exact ⟨_, _, rfl, Or.inl rfl, Or.inl rfl⟩
    · exact ⟨_, _, rfl, Or.inl rfl, Or.inl rfl⟩
  · exact ⟨_, _, rfl, Or.inl rfl, Or.inl rfl⟩

theorem removeTargets_eq_some {query : Item} {ids : List String}
    (h : db.removeTargets E coll query = some (ids, db')) :
    db' = (db.removeIndexed coll query).2 := by
  unfold removeTargets at h
  rcases hr : db.removeIndexed coll query with ⟨ids₀, db₀⟩
  simp only [hr] at h
  split at h
  · split at h
    · cases h; rfl
    · cases h
  · cases h; rfl

theorem removeOne_eq (env : Env) (db : Db) (coll uuid : String) :
    db.removeOne env coll uuid =
      match (db.idIndexes.get coll).lookup uuid with
      | none => { db with idIndexes := db.idIndexes.touch coll }
      | some target =>
        { db with
          storage := Engine.append db.storage coll (tombstone uuid) env.ioOk,
          customIndexes := CustomIndexes.update db.customIndexes db.indexedFields coll target false,
          idIndexes := (db.idIndexes.touch coll).modify coll (·.erase uuid),
          memoryStore := db.memoryStore.modify coll (detachItemViaPointer · target) } := by
  unfold removeOne
  simp only [StrMap.get_touch]
  rcases (db.idIndexes.get coll).lookup uuid with _ | target <;> rfl

theorem mem_removeOne {db : Db} {coll : String} (hmem : coll ∈ db.memoryStore) (uuid : String) :
    coll ∈ (db.removeOne env coll uuid).memoryStore := by
  rw [removeOne_eq]
  split
  · exact hmem
  · exact (StrMap.mem_modify _ _).mpr (Or.inr hmem)

theorem remove_eq_some {query : Item} (h : db.remove E env coll query = some (r, db')) :
    db' = db ∨ coll ∈ db.memoryStore ∧ exists ids db₁,
      db.removeTargets E coll query = some (ids, db₁) ∧
        db' = ids.foldl (fun db uuid => db.removeOne env coll uuid) db₁ := by
  unfold remove at h
  split at h
  · rename_i hmem
    cases ht : db.removeTargets E coll query with
    | none => simp [ht] at h
    | some p =>
        obtain ⟨ids, db₁⟩ := p
        simp only [ht, Option.bind_eq_bind, Option.some_bind] at h
        right
        refine ⟨hmem, ids, db₁, rfl, ?_⟩
        split at h
        · rename_i hnil
          cases h
          rw [List.isEmpty_iff.mp hnil]
          rfl
        · cases h; rfl
  · cases h
    exact Or.inl rfl

/-!
## What a write leaves alone
-/

structure SameOutside (db db' : Db) (coll : String) : Prop where
  authCache : db'.authCache = db.authCache
  memory : ∀ c, c ≠ coll -> db'.memoryStore.lookup c = db.memoryStore.lookup c
  files : ∀ k, k ≠ Engine.fileKey coll -> db'.storage.get k = db.storage.get k

theorem SameOutside.refl (db : Db) (coll : String) : SameOutside db db coll :=
  ⟨rfl, fun _ _ => rfl, fun _ _ => rfl⟩

theorem SameOutside.trans {db₁ db₂ db₃ : Db} (h₁ : SameOutside db₁ db₂ coll)
    (h₂ : SameOutside db₂ db₃ coll) : SameOutside db₁ db₃ coll :=
  ⟨h₂.authCache.trans h₁.authCache, fun c hc => (h₂.memory c hc).trans (h₁.memory c hc),
    fun k hk => (h₂.files k hk).trans (h₁.files k hk)⟩

theorem SameOutside.frames {db' : Db} (h : SameOutside db db' coll) {c : String}
    (hc : Engine.fileKey c ≠ Engine.fileKey coll) :
    Engine.logFrames db'.storage c = Engine.logFrames db.storage c :=
  h.files _ hc

theorem SameOutside.of_storage {db' : Db} (ha : db'.authCache = db.authCache)
    (hm : db'.memoryStore = db.memoryStore)
    (hs : ∀ k, k ≠ Engine.fileKey coll -> db'.storage.get k = db.storage.get k) :
    SameOutside db db' coll :=
  ⟨ha, fun c _ => by rw [hm], hs⟩

@[simp] theorem memoryStore_compactCollection (db : Db) (coll : String) (ok : Bool) :
    (db.compactCollection coll ok).2.memoryStore = db.memoryStore := by
  rw [compactCollection_snd]

@[simp] theorem authCache_compactCollection (db : Db) (coll : String) (ok : Bool) :
    (db.compactCollection coll ok).2.authCache = db.authCache := by
  rw [compactCollection_snd]

theorem compactCollection_sameOutside (db : Db) (coll : String) (ok : Bool) :
    SameOutside db (db.compactCollection coll ok).2 coll := by
  refine .of_storage (by simp) (by simp) fun k hk => ?_
  rw [compactCollection_snd]
  split
  · rfl
  · exact Engine.get_compact_ne _ _ _ hk

theorem inserted_sameOutside (db : Db) (coll uuid : String) (item : Item) (ok : Bool) :
    SameOutside db ((db.getCollection coll).inserted coll uuid item ok) coll := by
  refine ⟨authCache_getCollection db coll, fun c hc => ?_, fun k hk => ?_⟩
  · show AList.lookup c (AList.insert coll _ _) = _
    rw [AList.lookup_insert_ne hc, memoryStore_lookup_getCollection, if_neg fun h => hc h.1]
  · show StrMap.get (Engine.append _ coll item ok) k = _
    rw [Engine.get_append_ne _ _ _ hk, storage_getCollection]

theorem insert_sameOutside {data : Item} (h : db.insert E env coll data = some (r, db')) :
    SameOutside db db' coll := by
  rcases insert_eq_some h with ⟨-, -, rfl⟩ | ⟨uuid, item, -, -, -, rfl⟩
  · exact SameOutside.refl _ coll
  · exact inserted_sameOutside db coll uuid item env.ioOk

theorem update_sameOutside {query data : Item} (h : db.update E env coll query data = some (r, db')) :
    SameOutside db db' coll := by
  rcases update_eq_some h with ⟨-, -, rfl⟩ | ⟨arr, -, -, rfl⟩
  · exact SameOutside.refl _ coll
  · have hc := compactCollection_sameOutside
      ((({ db with memoryStore := db.memoryStore.insert coll (updatedCollection E arr query data) } :
        Db).rebuildIndex coll (updatedCollection E arr query data))) coll env.ioOk
    rw [rebuildIndex_eq] at hc ⊢
    exact ⟨hc.authCache, fun c hne => (hc.memory c hne).trans (AList.lookup_insert_ne hne), hc.files⟩

theorem upsert_sameOutside {query data : Item} (h : db.upsert E env coll query data = some (r, db')) :
    SameOutside db db' coll := by
  obtain ⟨n, -, ⟨-, h⟩ | ⟨-, h⟩⟩ := upsert_eq_some h
  · exact update_sameOutside h
  · exact insert_sameOutside h

theorem removeOne_sameOutside (env : Env) (db : Db) (coll uuid : String) :
    SameOutside db (db.removeOne env coll uuid) coll := by
  rw [removeOne_eq]
  cases (db.idIndexes.get coll).lookup uuid with
  | none => exact ⟨rfl, fun _ _ => rfl, fun _ _ => rfl⟩
  | some target =>
      exact ⟨rfl, fun c hc => StrMap.lookup_modify_ne _ _ hc, fun k hk => Engine.get_append_ne _ _ _ hk⟩

theorem foldl_removeOne_sameOutside (env : Env) (db : Db) (coll : String) (ids : List String) :
    SameOutside db (ids.foldl (fun db uuid => db.removeOne env coll uuid) db) coll := by
  induction ids generalizing db with
  | nil => exact SameOutside.refl db coll
  | cons uuid ids ih => exact (removeOne_sameOutside env db coll uuid).trans (ih _)

theorem remove_sameOutside {query : Item} (h : db.remove E env coll query = some (r, db')) :
    SameOutside db db' coll := by
  rcases remove_eq_some h with rfl | ⟨-, ids, db₁, ht, rfl⟩
  · exact SameOutside.refl _ coll
  · have h₁ : SameOutside db db₁ coll := by
      obtain ⟨ii, ci, hdb₁, -, -⟩ := removeIndexed_snd db coll query
      rw [removeTargets_eq_some ht, hdb₁]
      exact ⟨rfl, fun _ _ => rfl, fun _ _ => rfl⟩
    exact h₁.trans (foldl_removeOne_sameOutside env db₁ coll ids)

theorem createIndex_sameOutside (env : Env) (db : Db) (coll field : String) :
    SameOutside db (db.createIndex env coll field).2 "_indexes" := by
  rw [createIndex_snd]
  split
  · exact SameOutside.refl db _
  · exact .of_storage rfl rfl fun _ hk => Engine.get_compact_ne _ _ _ hk

theorem setSchema_sameOutside (env : Env) (db : Db) (coll : String) (schema : Item) :
    SameOutside db (db.setSchema env coll schema).2 "_schemas" :=
  .of_storage rfl rfl fun _ hk => Engine.get_append_ne _ _ _ hk

theorem call_sameOutside {c : Call} (hc : ∀ key role, c ≠ .createUser key role)
    (hstep : db.call E env c = some (r, db')) : SameOutside db db' c.target := by
  cases c with
  | insert coll data => exact insert_sameOutside hstep
  | upsert coll query data => exact upsert_sameOutside hstep
  | update coll query data => exact update_sameOutside hstep
  | remove coll query => exact remove_sameOutside hstep
  | createIndex coll field =>
      cases congrArg Prod.snd (Option.some.inj hstep)
      exact createIndex_sameOutside env db coll field
  | setSchema coll schema =>
      cases congrArg Prod.snd (Option.some.inj hstep)
      exact setSchema_sameOutside env db coll schema
  | createUser key role => exact absurd rfl (hc key role)
  | triggerCompaction coll =>
      cases congrArg Prod.snd (Option.some.inj hstep)
      exact compactCollection_sameOutside db coll env.ioOk

end Db

end AevumDb
