import AevumDb.Storage.Steps

/-!
# The primary index

`id_indexes_[C]` is meant to map every `_id` of collection `C` to the one
document carrying it.  `PrimaryIndexed` states that of a state.  Runs break it:
insert files a caller's `_id` without looking for it, so the same `_id` can be
inserted twice, and `create_user` adds the credential documents of `_auth` to
the array without filing them.  The property holds in every collection but
`_auth` along every run whose inserts add objects with `_id`s not yet in their
collection, when the engine's update keeps the `_id`s of the documents.

The proof carries the invariant `Indexed` for each collection, re-established
by each call from the inversion lemmas of `Steps`.
-/

namespace AevumDb

open Item

/-!
## The property and its invariant
-/

def PrimaryIndexed (db : Db) (coll : String) : Prop :=
  let docs := children (db.memoryStore.get coll)
  (∀ d ∈ docs, d.docId.isSome) ∧ (docs.map docId).Nodup ∧
    ∀ u d, (db.idIndexes.get coll).lookup u = some d ↔ d ∈ docs ∧ d.docId = some u

structure Indexed (docs : List Item) (index : StrMap Item) : Prop where
  objects : ∀ d ∈ docs, d.type = .object
  ids : ∀ d ∈ docs, d.docId.isSome
  nodup : (docs.map docId).Nodup
  lookup_iff : ∀ u d, index.lookup u = some d ↔ d ∈ docs ∧ d.docId = some u

namespace Indexed

variable {docs : List Item} {index : StrMap Item}

theorem nil : Indexed [] ∅ :=
  ⟨by simp, by simp, List.nodup_nil, by simp⟩

theorem eq_of_docId (h : Indexed docs index) {d e : Item} (hd : d ∈ docs) (he : e ∈ docs)
    (heq : d.docId = e.docId) : d = e :=
  List.inj_on_of_nodup_map h.nodup hd he heq

theorem push (h : Indexed docs index) {x : Item} {u : String} (hobj : x.type = .object)
    (hid : x.docId = some u) (hfresh : ∀ d ∈ docs, d.docId ≠ some u) :
    Indexed (docs ++ [x]) (index.insert u x) where
  objects d hd := by
    rcases List.mem_append.mp hd with hd | hd
    · exact h.objects d hd
    · rw [List.mem_singleton.mp hd]; exact hobj
  ids d hd := by
    rcases List.mem_append.mp hd with hd | hd
    · exact h.ids d hd
    · rw [List.mem_singleton.mp hd, hid]; rfl
  nodup := by
    rw [List.map_append, List.nodup_append]
    refine ⟨h.nodup, List.nodup_singleton _, ?_⟩
    simp only [List.map_cons, List.map_nil, List.disjoint_singleton, List.mem_map, not_exists,
      not_and, hid]
    exact hfresh
  lookup_iff v d := by
    by_cases hv : v = u
    · subst hv
      rw [AList.lookup_insert, Option.some.injEq]
      constructor
      · rintro rfl; exact ⟨List.mem_append_right _ (List.mem_singleton_self _), hid⟩
      · rintro ⟨hd, hdid⟩
        rcases List.mem_append.mp hd with hd | hd
        · exact absurd hdid (hfresh d hd)
        · exact (List.mem_singleton.mp hd).symm
    · rw [AList.lookup_insert_ne hv, h.lookup_iff, List.mem_append, List.mem_singleton]
      constructor
      · rintro ⟨hd, hdid⟩; exact ⟨Or.inl hd, hdid⟩
      · rintro ⟨hd | rfl, hdid⟩
        · exact ⟨hd, hdid⟩
        · exact absurd (hid.symm.trans hdid) (by simpa using Ne.symm hv)

theorem erase (h : Indexed docs index) {u : String} {t : Item} (ht : index.lookup u = some t) :
    Indexed (docs.erase t) (index.erase u) where
  objects d hd := h.objects d (List.mem_of_mem_erase hd)
  ids d hd := h.ids d (List.mem_of_mem_erase hd)
  nodup := ((List.erase_sublist t docs).map docId).nodup h.nodup
  lookup_iff v d := by
    obtain ⟨htmem, htid⟩ := (h.lookup_iff u t).mp ht
    have hdocs : docs.Nodup := List.Nodup.of_map docId h.nodup
    rw [hdocs.mem_erase_iff]
    by_cases hv : v = u
    · subst hv
      rw [AList.lookup_erase]
      refine ⟨fun hnone => Option.noConfusion hnone, ?_⟩
      rintro ⟨⟨hne, hd⟩, hdid⟩
      exact absurd (h.eq_of_docId hd htmem (hdid.trans htid.symm)) hne
    · rw [AList.lookup_erase_ne hv, h.lookup_iff]
      constructor
      · rintro ⟨hd, hdid⟩
        refine ⟨⟨fun hdt => ?_, hd⟩, hdid⟩
        rw [hdt] at hdid
        exact hv (Option.some.inj (hdid.symm.trans htid))
      · rintro ⟨⟨_, hd⟩, hdid⟩; exact ⟨hd, hdid⟩

theorem foldl_indexId {pre : List Item} (h : Indexed pre index) {rest : List Item}
    (hobj : ∀ d ∈ rest, d.type = .object) (hids : ∀ d ∈ rest, d.docId.isSome)
    (hnodup : ((pre ++ rest).map docId).Nodup) :
    Indexed (pre ++ rest) (rest.foldl Db.indexId index) := by
  induction rest generalizing pre index with
  | nil => simpa using h
  | cons x rest ih =>
      obtain ⟨u, hu⟩ := Option.isSome_iff_exists.mp (hids x (List.mem_cons_self x rest))
      have hfresh : ∀ d ∈ pre, d.docId ≠ some u := by
        intro d hd hdid
        rw [List.map_append, List.map_cons, List.nodup_append] at hnodup
        exact hnodup.2.2 (List.mem_map_of_mem docId hd)
          (by rw [hdid, ← hu]; exact List.mem_cons_self _ _)
      have hpush := h.push (hobj x (List.mem_cons_self x rest)) hu hfresh
      have hstep : Db.indexId index x = index.insert u x := by simp only [Db.indexId, hu]
      rw [List.foldl_cons, hstep, ← List.singleton_append, ← List.append_assoc]
      exact ih hpush (fun d hd => hobj d (List.mem_cons_of_mem x hd))
        (fun d hd => hids d (List.mem_cons_of_mem x hd)) (by simpa using hnodup)

theorem primaryIndex (hobj : ∀ d ∈ docs, d.type = .object) (hids : ∀ d ∈ docs, d.docId.isSome)
    (hnodup : (docs.map docId).Nodup) : Indexed docs (Db.primaryIndex docs) := by
  simpa using @foldl_indexId ∅ [] nil docs hobj hids (by simpa using hnodup)

end Indexed

structure CollectionIndexed (db : Db) (coll : String) : Prop where
  indexed : Indexed (children (db.memoryStore.get coll)) (db.idIndexes.get coll)
  array : coll ∈ db.memoryStore ->
    exists k, db.memoryStore.lookup coll = some (some ⟨.array, k, children (db.memoryStore.get coll)⟩)

theorem CollectionIndexed.of_lookup {db : Db} {coll : String} (k : Option String) (docs : List Item)
    (hl : db.memoryStore.lookup coll = some (some ⟨.array, k, docs⟩))
    (hi : Indexed docs (db.idIndexes.get coll)) : CollectionIndexed db coll := by
  have hdocs : children (db.memoryStore.get coll) = docs := by
    rw [StrMap.get_of_lookup _ hl]; rfl
  exact ⟨hdocs ▸ hi, fun _ => ⟨k, hdocs ▸ hl⟩⟩

theorem CollectionIndexed.primaryIndexed {db : Db} {coll : String}
    (h : CollectionIndexed db coll) : PrimaryIndexed db coll :=
  ⟨h.indexed.ids, h.indexed.nodup, h.indexed.lookup_iff⟩

theorem CollectionIndexed.congr {db db' : Db} {coll : String} (h : CollectionIndexed db coll)
    (hm : db'.memoryStore.lookup coll = db.memoryStore.lookup coll)
    (hi : db'.idIndexes.get coll = db.idIndexes.get coll) : CollectionIndexed db' coll := by
  have hget : db'.memoryStore.get coll = db.memoryStore.get coll := by simp only [StrMap.get, hm]
  refine ⟨hget ▸ hi ▸ h.indexed, fun hmem => ?_⟩
  rw [← AList.lookup_isSome, hm, AList.lookup_isSome] at hmem
  rw [hm, hget]
  exact h.array hmem

/-!
## What the engine is assumed to do
-/

def PredicateEngine.KeepsIds (E : PredicateEngine) : Prop :=
  ∀ (docs : List Item) (query data : Item), exists out,
    (E.update (reparse ⟨.array, none, docs⟩) query data).map reparse = some ⟨.array, none, out⟩ ∧
      (out.map docId).Perm ((docs.map reparse).map docId)

theorem PredicateEngine.KeepsIds.indexed_update {E : PredicateEngine} (hE : E.KeepsIds)
    {docs : List Item} {index : StrMap Item} (hi : Indexed docs index) (k : Option String)
    (query data : Item) :
    exists out, Db.updatedCollection E ⟨.array, k, docs⟩ query data = some ⟨.array, none, out⟩ ∧
      Indexed out (Db.primaryIndex out) := by
  obtain ⟨out, hout, hperm⟩ := hE docs (reparse query) (reparse data)
  refine ⟨out, by simpa [Db.updatedCollection] using hout, ?_⟩
  have hsame : (docs.map reparse).map docId = docs.map docId := by
    rw [List.map_map]
    exact List.map_congr_left fun d hd => docId_reparse_of_object (hi.objects d hd)
  rw [hsame] at hperm
  have hids : ∀ d ∈ out, d.docId.isSome := by
    intro d hd
    obtain ⟨e, he, hde⟩ := List.mem_map.mp (hperm.subset (List.mem_map_of_mem docId hd))
    rw [← hde]
    exact hi.ids e he
  obtain ⟨y, -, hy⟩ := Option.map_eq_some'.mp hout
  obtain ⟨-, ys, -, rfl⟩ := reparse_eq_array hy
  refine Indexed.primaryIndex (fun d hd => ?_) hids (hperm.nodup_iff.mpr hi.nodup)
  obtain ⟨x, -, rfl⟩ := List.mem_map.mp hd
  rw [type_reparse, reparseType_eq_object]
  exact type_of_docId_reparse (hids _ hd)

def PredicateEngine.unchanged : PredicateEngine where
  validate _ _ := true
  count _ _ := 0
  find _ _ _ _ _ _ := some createArray
  update arr _ _ := some arr

theorem PredicateEngine.unchanged_keepsIds : PredicateEngine.unchanged.KeepsIds := by
  intro docs query data
  refine ⟨docs.map reparse, ?_, List.Perm.refl _⟩
  simp only [PredicateEngine.unchanged, Option.map_some', reparse_array, List.map_map,
    Function.comp_def, reparse_reparse]

/-!
## What the runs are assumed to do
-/

def FreshInsert (env : Env) (db : Db) (coll : String) (data : Item) : Prop :=
  data.type = .object ∧ ∀ uuid item, Db.assignId env data = some (uuid, item) ->
    ∀ d ∈ children (db.memoryStore.get coll), d.docId ≠ some uuid

def freshInserts (E : PredicateEngine) : Db -> Env -> Call -> Prop
  | db, env, .insert coll data => FreshInsert env db coll data
  | db, env, .upsert coll query data =>
      ∀ n, db.count E coll (some query) = some n -> n ≤ 0 -> FreshInsert env db coll data
  | _, _, _ => True

/-!
## One call at a time
-/

namespace Db

variable {E : PredicateEngine} {env : Env} {db : Db} {coll c : String}

theorem collectionIndexed_getCollection (h : CollectionIndexed db c) :
    CollectionIndexed (db.getCollection coll) c := by
  by_cases hnew : c = coll ∧ coll ∉ db.memoryStore
  · refine CollectionIndexed.of_lookup none [] ?_ ?_
    · rw [memoryStore_lookup_getCollection, if_pos hnew]; rfl
    · rw [idIndexes_get_getCollection, if_pos hnew]; exact Indexed.nil
  · exact h.congr (by rw [memoryStore_lookup_getCollection, if_neg hnew])
      (by rw [idIndexes_get_getCollection, if_neg hnew])

theorem collectionIndexed_inserted (h : CollectionIndexed db c) (hmem : coll ∈ db.memoryStore)
    {uuid : String} {item : Item} (hobj : item.type = .object) (hid : item.docId = some uuid)
    (hfresh : ∀ d ∈ children (db.memoryStore.get coll), d.docId ≠ some uuid) (ok : Bool) :
    CollectionIndexed (db.inserted coll uuid item ok) c := by
  by_cases hc : c = coll
  · subst hc
    obtain ⟨k, hl⟩ := h.array hmem
    refine CollectionIndexed.of_lookup k (children (db.memoryStore.get c) ++ [item]) ?_ ?_
    · simp only [inserted, AList.lookup_insert]
      rw [StrMap.get_of_lookup _ hl]
      rfl
    · simp only [inserted, StrMap.get_modify_self]
      exact h.indexed.push hobj hid hfresh
  · exact h.congr (AList.lookup_insert_ne hc) (StrMap.get_modify_ne _ _ hc)

theorem collectionIndexed_removeOne (h : CollectionIndexed db c) (hmem : coll ∈ db.memoryStore)
    (uuid : String) : CollectionIndexed (db.removeOne env coll uuid) c := by
  rw [removeOne_eq]
  split
  · exact h.congr rfl (StrMap.get_touch _ _ _)
  · rename_i target ht
    by_cases hc : c = coll
    · subst hc
      obtain ⟨k, hl⟩ := h.array hmem
      refine CollectionIndexed.of_lookup k ((children (db.memoryStore.get c)).erase target) ?_ ?_
      · rw [StrMap.lookup_modify_self, StrMap.get_of_lookup _ hl]
        rfl
      · simp only [StrMap.get_modify_self, StrMap.get_touch]
        exact h.indexed.erase ht
    · exact h.congr (StrMap.lookup_modify_ne _ _ hc)
        ((StrMap.get_modify_ne _ _ hc).trans (StrMap.get_touch _ _ _))

theorem collectionIndexed_foldl_removeOne (h : CollectionIndexed db c)
    (hmem : coll ∈ db.memoryStore) (ids : List String) :
    CollectionIndexed (ids.foldl (fun db uuid => db.removeOne env coll uuid) db) c := by
  induction ids generalizing db with
  | nil => exact h
  | cons uuid ids ih => exact ih (collectionIndexed_removeOne h hmem uuid) (mem_removeOne hmem uuid)

theorem collectionIndexed_remove {query : Item} {r : Bool} {db' : Db}
    (hstep : db.remove E env coll query = some (r, db')) (h : CollectionIndexed db c) :
    CollectionIndexed db' c := by
  rcases remove_eq_some hstep with rfl | ⟨hmem, ids, db₁, ht, rfl⟩
  · exact h
  · obtain ⟨ii, ci, hdb₁, hii, -⟩ := removeIndexed_snd db coll query
    rw [removeTargets_eq_some ht, hdb₁]
    have hget : ii.get c = db.idIndexes.get c := by
      rcases hii with rfl | rfl
      · rfl
      · exact StrMap.get_touch _ _ _
    have h₁ : CollectionIndexed { db with idIndexes := ii, customIndexes := ci } c :=
      h.congr rfl hget
    exact collectionIndexed_foldl_removeOne h₁ hmem ids

theorem collectionIndexed_insert {data : Item} {r : Bool} {db' : Db}
    (hfresh : FreshInsert env db coll data) (hstep : db.insert E env coll data = some (r, db'))
    (h : CollectionIndexed db c) : CollectionIndexed db' c := by
  rcases insert_eq_some hstep with ⟨-, -, rfl⟩ | ⟨uuid, item, -, ha, -, rfl⟩
  · exact h
  · obtain ⟨hid, htype⟩ := assignId_eq_some ha
    refine collectionIndexed_inserted (collectionIndexed_getCollection h) (mem_getCollection db coll)
      (htype.trans hfresh.1) hid ?_ env.ioOk
    rw [children_getCollection]
    exact hfresh.2 uuid item ha

theorem collectionIndexed_update (hE : E.KeepsIds) {query data : Item} {r : Bool} {db' : Db}
    (hstep : db.update E env coll query data = some (r, db')) (h : CollectionIndexed db c) :
    CollectionIndexed db' c := by
  rcases update_eq_some hstep with ⟨-, -, rfl⟩ | ⟨arr, hl, -, rfl⟩
  · exact h
  · rw [compactCollection_snd, rebuildIndex_eq]
    by_cases hc : c = coll
    · subst hc
      obtain ⟨k, hl'⟩ := h.array (AList.lookup_isSome.mp (by rw [hl]; rfl))
      rw [hl] at hl'
      cases hl'
      obtain ⟨out, hstored, hout⟩ := hE.indexed_update h.indexed k query data
      refine CollectionIndexed.of_lookup none out ?_ ?_
      · simp only [AList.lookup_insert, hstored]
      · rw [StrMap.get_insert_self, hstored]
        exact hout
    · exact h.congr (AList.lookup_insert_ne hc) (StrMap.get_insert_ne _ _ hc)

theorem collectionIndexed_call (hE : E.KeepsIds) {call : Call} {r : Bool} {db' : Db}
    (hallow : freshInserts E db env call) (hstep : db.call E env call = some (r, db'))
    (hc : c ≠ "_auth") (h : CollectionIndexed db c) : CollectionIndexed db' c := by
  cases call with
  | insert coll data => exact collectionIndexed_insert hallow hstep h
  | upsert coll query data =>
      obtain ⟨n, hn, ⟨-, hup⟩ | ⟨hle, hins⟩⟩ := upsert_eq_some hstep
      · exact collectionIndexed_update hE hup h
      · exact collectionIndexed_insert (hallow n hn hle) hins h
  | update coll query data => exact collectionIndexed_update hE hstep h
  | remove coll query => exact collectionIndexed_remove hstep h
  | createIndex coll field =>
      have hdb := congrArg Prod.snd (Option.some.inj hstep)
      subst hdb
      rw [createIndex_snd]
      split
      · exact h
      · exact h.congr rfl rfl
  | setSchema coll schema =>
      cases congrArg Prod.snd (Option.some.inj hstep)
      exact h.congr rfl rfl
  | createUser key role =>
      cases congrArg Prod.snd (Option.some.inj hstep)
      obtain ⟨hm, hi, -⟩ := createUser_other env db key role hc
      exact h.congr hm hi
  | triggerCompaction coll =>
      have hdb := congrArg Prod.snd (Option.some.inj hstep)
      subst hdb
      rw [triggerCompaction, compactCollection_snd]
      exact h.congr rfl rfl

theorem eq_auth_of_mem_fresh {env : Env} (h : c ∈ (Db.fresh env).memoryStore) : c = "_auth" := by
  rcases (AList.mem_insert _).mp h with h | h
  · exact h
  · simp only [getCollection, onDisk, AList.not_mem_empty, if_false] at h
    rcases (AList.mem_insert _).mp h with h | h
    · exact h
    · exact absurd h (AList.not_mem_empty c)

theorem collectionIndexed_fresh (env : Env) (hc : c ≠ "_auth") :
    CollectionIndexed (Db.fresh env) c := by
  have hl : (Db.fresh env).memoryStore.lookup c = none :=
    AList.lookup_eq_none.mpr fun hmem => hc (eq_auth_of_mem_fresh hmem)
  have hi : (Db.fresh env).idIndexes.lookup c = none := by
    simp only [Db.fresh, createUser, getCollection, onDisk, AList.not_mem_empty, if_false]
    exact AList.lookup_insert_ne hc
  refine ⟨?_, fun hmem => absurd (eq_auth_of_mem_fresh hmem) hc⟩
  rw [StrMap.get, StrMap.get, hl, hi]
  exact Indexed.nil

end Db

/-!
## Every run
-/

theorem collectionIndexed_of_freshInserts {E : PredicateEngine} (hE : E.KeepsIds) {db : Db}
    (h : Reachable E (freshInserts E) db) {coll : String} (hauth : coll ≠ "_auth") :
    CollectionIndexed db coll := by
  refine Reachable.induct_on (P := fun db => ∀ c, c ≠ "_auth" -> CollectionIndexed db c)
    (fun env c hc => Db.collectionIndexed_fresh env hc) ?_ h coll hauth
  intro db db' env call r ih hallow hstep c hc
  exact Db.collectionIndexed_call hE hallow hstep hc (ih c hc)

theorem primaryIndexed_of_freshInserts {E : PredicateEngine} (hE : E.KeepsIds) {db : Db}
    (h : Reachable E (freshInserts E) db) {coll : String} (hauth : coll ≠ "_auth") :
    PrimaryIndexed db coll :=
  (collectionIndexed_of_freshInserts hE h hauth).primaryIndexed

theorem primaryIndexed_after_fresh_insert :
    PrimaryIndexed (((Db.fresh ⟨0, 0, 0, true⟩).getCollection "items").inserted "items" "a"
      (createObject.addStringToObject "_id" "a") true) "items" :=
  primaryIndexed_of_freshInserts PredicateEngine.unchanged_keepsIds
    (Reachable.call ⟨0, 0, 0, true⟩ (.insert "items" (createObject.addStringToObject "_id" "a"))
      (Reachable.fresh ⟨0, 0, 0, true⟩) ⟨rfl, fun _ _ _ d hd => nomatch (show d ∈ [] from hd)⟩ rfl)
    (by decide)

theorem primaryIndexed_fails_after_duplicate_id :
    ¬ ∀ E : PredicateEngine, E.KeepsIds -> ∀ db, Reachable E anyCall db ->
      ∀ coll, coll ∈ db.memoryStore -> PrimaryIndexed db coll := by
  intro h
  have hreach : Reachable PredicateEngine.unchanged anyCall
      ((((((Db.fresh ⟨0, 0, 0, true⟩).getCollection "items").inserted "items" "a"
        (createObject.addStringToObject "_id" "a") true).getCollection "items").inserted "items" "a"
        (createObject.addStringToObject "_id" "a") true)) :=
    .call ⟨0, 0, 0, true⟩ (.insert "items" (createObject.addStringToObject "_id" "a"))
      (.call ⟨0, 0, 0, true⟩ (.insert "items" (createObject.addStringToObject "_id" "a"))
        (.fresh ⟨0, 0, 0, true⟩) trivial rfl) trivial rfl
  obtain ⟨-, hnodup, -⟩ := h _ PredicateEngine.unchanged_keepsIds _ hreach "items" (by decide)
  exact absurd hnodup (by decide)

end AevumDb
