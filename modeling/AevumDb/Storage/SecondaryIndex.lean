import AevumDb.Storage.PrimaryIndex

/-!
# The secondary indexes

`custom_indexes_[C][F][V]` is meant to list the documents of `C` whose member
`F` renders to the key `V` (a string as it is, a number by `std::to_string`),
each once: `SecondaryIndexed` states that of a state.  insert, remove and
rebuild_index keep it, but create_index backfills the collection through
update_custom_index, which runs over every field registered for the
collection, so each older field's lists get every document a second time.
-/

namespace AevumDb

open Item

/-!
## One list of the index
-/

namespace CustomIndexes

variable (ci : CustomIndexes) {c f k c' f' k' : String}

theorem entry_setEntry (docs : List Item) :
    entry (ci.setEntry c f k docs) c' f' k' =
      if c' = c ∧ f' = f ∧ k' = k then docs else entry ci c' f' k' := by
  unfold entry setEntry
  by_cases hc : c' = c <;> by_cases hf : f' = f <;> by_cases hk : k' = k <;>
    simp [StrMap.get_modify, StrMap.get_insert, hc, hf, hk]

theorem entry_eraseEntry :
    entry (ci.eraseEntry c f k) c' f' k' =
      if c' = c ∧ f' = f ∧ k' = k then [] else entry ci c' f' k' := by
  unfold entry eraseEntry
  by_cases hc : c' = c <;> by_cases hf : f' = f <;> by_cases hk : k' = k <;>
    simp [StrMap.get_modify, StrMap.get_erase, hc, hf, hk, show (default : List Item) = [] from rfl]

def editEntry (add : Bool) (doc : Item) (vec : List Item) : List Item :=
  if add then vec ++ [doc] else vec.erase doc

theorem entry_updateField (doc : Item) (add : Bool) :
    entry (ci.updateField c f doc add) c' f' k' =
      if c' = c ∧ f' = f ∧ indexKey (doc.getObjectItem f) = some k' then
        editEntry add doc (entry ci c' f' k')
      else entry ci c' f' k' := by
  unfold updateField
  cases hk : indexKey (doc.getObjectItem f) with
  | none => simp
  | some key =>
      by_cases h : c' = c ∧ f' = f ∧ k' = key
      · obtain ⟨rfl, rfl, rfl⟩ := h
        rw [if_pos ⟨rfl, rfl, rfl⟩]
        cases add
        · by_cases hmem : doc ∈ entry ci c' f' k'
          · by_cases hnil : (entry ci c' f' k').erase doc = []
            · simp [editEntry, hmem, hnil, entry_eraseEntry]
            · simp [editEntry, hmem, hnil, entry_setEntry]
          · simp [editEntry, hmem, entry_setEntry, List.erase_of_not_mem hmem]
        · simp [editEntry, entry_setEntry]
      · have h' : ¬ (c' = c ∧ f' = f ∧ some key = some k') := by
          simpa [eq_comm (a := key)] using h
        rw [if_neg h']
        -- every branch writes the list under `key` only
        cases add <;> simp only [Bool.false_eq_true, ↓reduceIte] <;> repeat' split
        all_goals simp [entry_setEntry, entry_eraseEntry, h]

theorem mem_fieldsOf {fields : List (String × String)} : f ∈ fieldsOf fields c ↔ (c, f) ∈ fields := by
  simp [fieldsOf, and_comm]

theorem nodup_fieldsOf {fields : List (String × String)} (h : fields.Nodup) (c : String) :
    (fieldsOf fields c).Nodup :=
  (h.filter _).map_on fun _ ha _ hb hab =>
    Prod.ext ((beq_iff_eq.mp (List.mem_filter.mp ha).2).trans (beq_iff_eq.mp (List.mem_filter.mp hb).2).symm)
      hab

theorem entry_foldl_updateField {fs : List String} (hfs : fs.Nodup) (doc : Item) (add : Bool) :
    entry (fs.foldl (fun ci f => ci.updateField c f doc add) ci) c' f' k' =
      if c' = c ∧ f' ∈ fs ∧ indexKey (doc.getObjectItem f') = some k' then
        editEntry add doc (entry ci c' f' k')
      else entry ci c' f' k' := by
  induction fs generalizing ci with
  | nil => simp
  | cons f fs ih =>
      rw [List.foldl_cons, ih _ (List.nodup_cons.mp hfs).2]
      by_cases hf : f' = f
      · subst hf
        simp [entry_updateField, (List.nodup_cons.mp hfs).1]
      · simp [entry_updateField, hf]

theorem entry_update {fields : List (String × String)} (hnodup : fields.Nodup) (doc : Item)
    (add : Bool) :
    entry (update ci fields c doc add) c' f' k' =
      if c' = c ∧ (c, f') ∈ fields ∧ indexKey (doc.getObjectItem f') = some k' then
        editEntry add doc (entry ci c' f' k')
      else entry ci c' f' k' := by
  unfold update
  split
  · rw [entry_foldl_updateField ci (nodup_fieldsOf hnodup c)]
    simp only [mem_fieldsOf]
  · rename_i hany
    have hf : (c, f') ∉ fields := fun h => hany (List.any_eq_true.mpr ⟨_, h, by simp⟩)
    simp [hf]

theorem entry_foldl_update {fields : List (String × String)} (hnodup : fields.Nodup)
    (docs : List Item) :
    entry (docs.foldl (fun ci item => update ci fields c item true) ci) c' f' k' =
      if c' = c ∧ (c, f') ∈ fields then
        entry ci c' f' k' ++ docs.filter fun d => indexKey (d.getObjectItem f') == some k'
      else entry ci c' f' k' := by
  induction docs generalizing ci with
  | nil => simp
  | cons d docs ih =>
      rw [List.foldl_cons, ih, entry_update _ hnodup]
      by_cases h : c' = c ∧ (c, f') ∈ fields
      · cases hk : indexKey (d.getObjectItem f') == some k' <;>
          simp_all [editEntry, List.filter_cons]
      · have h' : ¬ (c' = c ∧ (c, f') ∈ fields ∧ indexKey (d.getObjectItem f') = some k') :=
          fun h' => h ⟨h'.1, h'.2.1⟩
        simp only [if_neg h, if_neg h']

theorem entry_insert_empty (c : String) :
    entry (ci.insert c ∅) c' f' k' = if c' = c then [] else entry ci c' f' k' := by
  unfold entry
  split
  · subst c'
    rw [StrMap.get_insert_self]
    rfl
  · rw [StrMap.get_insert_ne _ _ ‹_›]

theorem entry_touch (c : String) : entry (ci.touch c) c' f' k' = entry ci c' f' k' := by
  simp [entry]

end CustomIndexes

def SecondaryIndexed (db : Db) (coll field : String) : Prop :=
  ∀ key, (CustomIndexes.entry db.customIndexes coll field key).Perm
    ((children (db.memoryStore.get coll)).filter fun d => indexKey (d.getObjectItem field) == some key)

/-!
## Along a run
-/

structure SecondaryAgrees (db : Db) (c : String) : Prop where
  nodup : db.indexedFields.Nodup
  array : c ∈ db.memoryStore ->
    exists k, db.memoryStore.lookup c = some (some ⟨.array, k, children (db.memoryStore.get c)⟩)
  agree : ∀ f, (c, f) ∈ db.indexedFields -> SecondaryIndexed db c f
  unregistered : ∀ f k, (c, f) ∉ db.indexedFields -> CustomIndexes.entry db.customIndexes c f k = []

def backfillSafe : Db -> Env -> Call -> Prop
  | db, _, .createIndex coll _ =>
      fieldsOf db.indexedFields coll = [] ∨ children (db.memoryStore.get coll) = []
  | _, _, _ => True

namespace SecondaryAgrees

variable {db db' : Db} {c : String}

theorem congr (h : SecondaryAgrees db c) (hf : db'.indexedFields = db.indexedFields)
    (hl : db'.memoryStore.lookup c = db.memoryStore.lookup c)
    (he : ∀ f k, CustomIndexes.entry db'.customIndexes c f k =
      CustomIndexes.entry db.customIndexes c f k) : SecondaryAgrees db' c := by
  have hget : db'.memoryStore.get c = db.memoryStore.get c := by rw [StrMap.get, StrMap.get, hl]
  refine ⟨hf ▸ h.nodup, fun hmem => ?_, fun f hcf k => ?_, fun f k hcf => ?_⟩
  · rw [hl, hget]
    exact h.array (AList.lookup_isSome.mp (hl ▸ AList.lookup_isSome.mpr hmem))
  · rw [he, hget]
    exact h.agree f (hf ▸ hcf) k
  · rw [he]
    exact h.unregistered f k (hf ▸ hcf)

theorem of_lookup (h : SecondaryAgrees db c) (k : Option String) (docs : List Item)
    (hf : db'.indexedFields = db.indexedFields)
    (hl : db'.memoryStore.lookup c = some (some ⟨.array, k, docs⟩))
    (hagree : ∀ f, (c, f) ∈ db.indexedFields -> ∀ key,
      (CustomIndexes.entry db'.customIndexes c f key).Perm
        (docs.filter fun d => indexKey (d.getObjectItem f) == some key))
    (hun : ∀ f k, (c, f) ∉ db.indexedFields -> CustomIndexes.entry db'.customIndexes c f k = []) :
    SecondaryAgrees db' c := by
  have hget : db'.memoryStore.get c = some ⟨.array, k, docs⟩ := StrMap.get_of_lookup _ hl
  refine ⟨hf ▸ h.nodup, fun _ => ⟨k, by rw [hl, hget]; rfl⟩, fun f hcf key => ?_,
    fun f key hcf => hun f key (hf ▸ hcf)⟩
  rw [hget]
  exact hagree f (hf ▸ hcf) key

end SecondaryAgrees

namespace Db

variable {E : PredicateEngine} {env : Env} {db : Db} {coll c : String}

open CustomIndexes

theorem secondaryAgrees_onDisk_empty (c : String) : SecondaryAgrees (onDisk ∅) c where
  nodup := List.nodup_nil
  array h := nomatch h
  agree _ h := nomatch h
  unregistered _ _ _ := rfl

theorem secondaryAgrees_getCollection (h : SecondaryAgrees db c) (coll : String) :
    SecondaryAgrees (db.getCollection coll) c := by
  have he := customIndexes_getCollection db coll
  have hf := indexedFields_getCollection db coll
  by_cases hnew : c = coll ∧ coll ∉ db.memoryStore
  · have hdocs : children (db.memoryStore.get c) = [] := by
      rw [StrMap.get, AList.lookup_eq_none.mpr (hnew.1 ▸ hnew.2)]; rfl
    refine h.of_lookup none [] hf ?_ (fun f hcf key => ?_) (fun f k hcf => ?_)
    · rw [memoryStore_lookup_getCollection, if_pos hnew]; rfl
    · rw [he]
      simpa [hdocs] using h.agree f hcf key
    · rw [he]
      exact h.unregistered f k hcf
  · exact h.congr hf (by rw [memoryStore_lookup_getCollection, if_neg hnew]) fun _ _ => by rw [he]

theorem secondaryAgrees_inserted (h : SecondaryAgrees db c) (hmem : coll ∈ db.memoryStore)
    (uuid : String) (item : Item) (ok : Bool) : SecondaryAgrees (db.inserted coll uuid item ok) c := by
  have he : ∀ f k, entry (db.inserted coll uuid item ok).customIndexes c f k =
      if c = coll ∧ (coll, f) ∈ db.indexedFields ∧ indexKey (item.getObjectItem f) = some k then
        entry db.customIndexes c f k ++ [item]
      else entry db.customIndexes c f k := fun f k => entry_update _ h.nodup item true
  by_cases hc : c = coll
  · subst hc
    obtain ⟨k, hl⟩ := h.array hmem
    refine h.of_lookup k (children (db.memoryStore.get c) ++ [item]) rfl ?_
      (fun f hcf key => ?_) (fun f key hcf => ?_)
    · show AList.lookup c (AList.insert c _ _) = _
      rw [AList.lookup_insert, StrMap.get_of_lookup _ hl]
      rfl
    · rw [he, List.filter_append]
      by_cases hk : indexKey (item.getObjectItem f) = some key
      · rw [if_pos ⟨rfl, hcf, hk⟩]
        simpa [hk] using (h.agree f hcf key).append_right [item]
      · rw [if_neg fun h' => hk h'.2.2]
        simpa [hk] using h.agree f hcf key
    · rw [he, if_neg fun h' => hcf h'.2.1]
      exact h.unregistered f key hcf
  · exact h.congr rfl (AList.lookup_insert_ne hc) fun f k => by rw [he, if_neg fun h' => hc h'.1]

theorem secondaryAgrees_removeOne (h : SecondaryAgrees db c) (hmem : coll ∈ db.memoryStore) (uuid : String) :
    SecondaryAgrees (db.removeOne env coll uuid) c := by
  rw [removeOne_eq]
  split
  · exact h.congr rfl rfl fun _ _ => rfl
  · rename_i target _
    have he : ∀ f k, entry (CustomIndexes.update db.customIndexes db.indexedFields coll target false)
        c f k = if c = coll ∧ (coll, f) ∈ db.indexedFields ∧
          indexKey (target.getObjectItem f) = some k then (entry db.customIndexes c f k).erase target
        else entry db.customIndexes c f k := fun f k => entry_update _ h.nodup target false
    by_cases hc : c = coll
    · subst hc
      obtain ⟨k, hl⟩ := h.array hmem
      refine h.of_lookup k ((children (db.memoryStore.get c)).erase target) rfl ?_
        (fun f hcf key => ?_) (fun f key hcf => ?_)
      · rw [StrMap.lookup_modify_self, StrMap.get_of_lookup _ hl]
        rfl
      · rw [he, ← List.erase_filter]
        by_cases hk : indexKey (target.getObjectItem f) = some key
        · rw [if_pos ⟨rfl, hcf, hk⟩]
          exact (h.agree f hcf key).erase target
        · rw [if_neg fun h' => hk h'.2.2, List.erase_of_not_mem (by simp [hk])]
          exact h.agree f hcf key
      · rw [he, if_neg fun h' => hcf h'.2.1]
        exact h.unregistered f key hcf
    · exact h.congr rfl (StrMap.lookup_modify_ne _ _ hc) fun f k => by rw [he, if_neg fun h' => hc h'.1]

theorem secondaryAgrees_remove {query : Item} {r : Bool} {db' : Db}
    (hstep : db.remove E env coll query = some (r, db')) (h : SecondaryAgrees db c) :
    SecondaryAgrees db' c := by
  rcases remove_eq_some hstep with rfl | ⟨hmem, ids, db₁, ht, rfl⟩
  · exact h
  · obtain ⟨ii, ci, hdb₁, -, hci⟩ := removeIndexed_snd db coll query
    have h₁ : SecondaryAgrees db₁ c := by
      rw [removeTargets_eq_some ht, hdb₁]
      refine h.congr rfl rfl fun _ _ => ?_
      rcases hci with rfl | rfl
      · rfl
      · exact entry_touch _ _
    have hmem₁ : coll ∈ db₁.memoryStore := by
      rw [removeTargets_eq_some ht, hdb₁]; exact hmem
    clear ht hdb₁ hstep
    induction ids generalizing db₁ with
    | nil => exact h₁
    | cons uuid ids ih => exact ih _ (secondaryAgrees_removeOne h₁ hmem₁ uuid) (mem_removeOne hmem₁ uuid)

theorem secondaryAgrees_insert {data : Item} {r : Bool} {db' : Db}
    (hstep : db.insert E env coll data = some (r, db')) (h : SecondaryAgrees db c) :
    SecondaryAgrees db' c := by
  rcases insert_eq_some hstep with ⟨-, -, rfl⟩ | ⟨uuid, item, -, -, -, rfl⟩
  · exact h
  · exact secondaryAgrees_inserted (secondaryAgrees_getCollection h coll) (mem_getCollection db coll)
      uuid item env.ioOk

theorem secondaryAgrees_update (hE : E.KeepsIds) {query data : Item} {r : Bool} {db' : Db}
    (hstep : db.update E env coll query data = some (r, db')) (h : SecondaryAgrees db c) :
    SecondaryAgrees db' c := by
  rcases update_eq_some hstep with ⟨-, -, rfl⟩ | ⟨arr, hl, -, rfl⟩
  · exact h
  · rw [compactCollection_snd, rebuildIndex_eq]
    have he : ∀ f k, entry (secondaryIndex db.indexedFields db.customIndexes coll
        (children (updatedCollection E arr query data))) c f k =
        if c = coll then
          if (coll, f) ∈ db.indexedFields then (children (updatedCollection E arr query data)).filter
            fun d => indexKey (d.getObjectItem f) == some k
          else []
        else entry db.customIndexes c f k := by
      intro f k
      rw [secondaryIndex, entry_foldl_update _ h.nodup, entry_insert_empty]
      by_cases hc : c = coll <;> by_cases hf : (coll, f) ∈ db.indexedFields <;> simp [hc, hf]
    by_cases hc : c = coll
    · subst hc
      obtain ⟨k, hk⟩ := h.array (AList.lookup_isSome.mp (by rw [hl]; rfl))
      obtain rfl := Option.some.inj (Option.some.inj (hl.symm.trans hk))
      obtain ⟨out, hout, -⟩ := hE (children (db.memoryStore.get c)) (reparse query) (reparse data)
      have hstored : updatedCollection E ⟨.array, k, children (db.memoryStore.get c)⟩ query data =
          some ⟨.array, none, out⟩ := by
        simpa [updatedCollection] using hout
      refine h.of_lookup none out rfl ?_ (fun f hf key => ?_) (fun f key hf => ?_)
      · show AList.lookup c (AList.insert c _ _) = _
        rw [AList.lookup_insert, hstored]
      · show (entry (secondaryIndex _ _ _ _) c f key).Perm _
        rw [he, if_pos rfl, if_pos hf, hstored]
        rfl
      · show entry (secondaryIndex _ _ _ _) c f key = []
        rw [he, if_pos rfl, if_neg hf]
    · exact h.congr rfl (AList.lookup_insert_ne hc) fun f k => by rw [he, if_neg hc]

theorem secondaryAgrees_upsert (hE : E.KeepsIds) {query data : Item} {r : Bool} {db' : Db}
    (hstep : db.upsert E env coll query data = some (r, db')) (h : SecondaryAgrees db c) :
    SecondaryAgrees db' c := by
  obtain ⟨n, -, ⟨-, hup⟩ | ⟨-, hins⟩⟩ := upsert_eq_some hstep
  · exact secondaryAgrees_update hE hup h
  · exact secondaryAgrees_insert hins h

theorem secondaryAgrees_createIndex {field : String}
    (hsafe : fieldsOf db.indexedFields coll = [] ∨ children (db.memoryStore.get coll) = [])
    (h : SecondaryAgrees db c) : SecondaryAgrees (db.createIndex env coll field).2 c := by
  rw [createIndex_snd]
  split
  · exact h
  rename_i hnew
  have hnodup : (db.indexedFields ++ [(coll, field)]).Nodup :=
    List.nodup_append.mpr ⟨h.nodup, List.nodup_singleton _, List.disjoint_singleton.mpr hnew⟩
  have hfold : (if coll ∈ db.memoryStore then (children (db.memoryStore.get coll)).foldl
      (fun ci item => CustomIndexes.update ci (db.indexedFields ++ [(coll, field)]) coll item true)
        db.customIndexes
      else db.customIndexes) = (children (db.memoryStore.get coll)).foldl
      (fun ci item => CustomIndexes.update ci (db.indexedFields ++ [(coll, field)]) coll item true)
        db.customIndexes := by
    split
    · rfl
    · rw [StrMap.get, AList.lookup_eq_none.mpr ‹_›]
      rfl
  refine ⟨hnodup, h.array, fun f hcf key => ?_, fun f k hcf => ?_⟩
  · show (entry (if coll ∈ db.memoryStore then _ else _) c f key).Perm _
    rw [hfold, entry_foldl_update _ hnodup]
    by_cases hc : c = coll
    · subst hc
      rw [if_pos ⟨rfl, hcf⟩]
      by_cases hold : (c, f) ∈ db.indexedFields
      · have hdocs : children (db.memoryStore.get c) = [] :=
          hsafe.resolve_left fun he => List.not_mem_nil f (he ▸ mem_fieldsOf.mpr hold)
        simpa [hdocs] using h.agree f hold key
      · rw [h.unregistered f key hold]
        exact List.Perm.refl _
    · rw [if_neg fun h' => hc h'.1]
      exact h.agree f ((List.mem_append.mp hcf).resolve_right fun e => hc (Prod.ext_iff.mp
        (List.mem_singleton.mp e)).1) key
  · show entry (if coll ∈ db.memoryStore then _ else _) c f k = []
    rw [hfold, entry_foldl_update _ hnodup, if_neg fun ⟨hc, h'⟩ => hcf (hc ▸ h')]
    exact h.unregistered f k fun e => hcf (List.mem_append_left _ e)

theorem secondaryAgrees_createUser {key role : String} (hc : c ≠ "_auth") (h : SecondaryAgrees db c) :
    SecondaryAgrees (db.createUser env key role).2 c :=
  h.congr (indexedFields_createUser env db key role) (createUser_other env db key role hc).1
    fun _ _ => by rw [customIndexes_createUser]

theorem secondaryAgrees_call (hE : E.KeepsIds) {call : Call} {r : Bool} {db' : Db}
    (hallow : backfillSafe db env call) (hstep : db.call E env call = some (r, db'))
    (hc : c ≠ "_auth") (h : SecondaryAgrees db c) : SecondaryAgrees db' c := by
  cases call with
  | insert coll data => exact secondaryAgrees_insert hstep h
  | upsert coll query data => exact secondaryAgrees_upsert hE hstep h
  | update coll query data => exact secondaryAgrees_update hE hstep h
  | remove coll query => exact secondaryAgrees_remove hstep h
  | createIndex coll field =>
      cases congrArg Prod.snd (Option.some.inj hstep)
      exact secondaryAgrees_createIndex hallow h
  | setSchema coll schema =>
      cases congrArg Prod.snd (Option.some.inj hstep)
      exact h.congr rfl rfl fun _ _ => rfl
  | createUser key role =>
      cases congrArg Prod.snd (Option.some.inj hstep)
      exact secondaryAgrees_createUser hc h
  | triggerCompaction coll =>
      cases congrArg Prod.snd (Option.some.inj hstep)
      show SecondaryAgrees (db.compactCollection coll env.ioOk).2 c
      rw [compactCollection_snd]
      exact h.congr rfl rfl fun _ _ => rfl

theorem secondaryAgrees_fresh (env : Env) {c : String} (hc : c ≠ "_auth") : SecondaryAgrees (fresh env) c :=
  secondaryAgrees_createUser hc (secondaryAgrees_onDisk_empty c)

end Db

theorem secondaryAgrees_of_backfillSafe {E : PredicateEngine} (hE : E.KeepsIds) {db : Db}
    (h : Reachable E backfillSafe db) {c : String} (hc : c ≠ "_auth") : SecondaryAgrees db c :=
  h.induct_on (P := fun db => SecondaryAgrees db c) (fun env => Db.secondaryAgrees_fresh env hc)
    fun _ _ _ _ _ ih hallow hstep => Db.secondaryAgrees_call hE hallow hstep hc ih

theorem secondaryIndexed_of_backfillSafe {E : PredicateEngine} (hE : E.KeepsIds) {db : Db}
    (h : Reachable E backfillSafe db) {coll field : String} (hc : coll ≠ "_auth")
    (hf : (coll, field) ∈ db.indexedFields) : SecondaryIndexed db coll field :=
  (secondaryAgrees_of_backfillSafe hE h hc).agree field hf

/-- A second create_index on a collection that holds a document files the document a second
time under the first indexed field. -/
theorem create_index_backfills_twice :
    exists doc db, doc = (createObject.addStringToObject "_id" "d").addStringToObject "a" "x" ∧
      Db.runCalls PredicateEngine.unchanged ⟨0, 0, 0, true⟩ (Db.fresh ⟨0, 0, 0, true⟩)
        [.insert "c" doc, .createIndex "c" "a", .createIndex "c" "b"] = some db ∧
      Reachable PredicateEngine.unchanged succeeding db ∧ ("c", "a") ∈ db.indexedFields ∧
      children (db.memoryStore.get "c") = [doc] ∧
      CustomIndexes.entry db.customIndexes "c" "a" "x" = [doc, doc] ∧ ¬ SecondaryIndexed db "c" "a" := by
  have hrun : Db.runCalls PredicateEngine.unchanged ⟨0, 0, 0, true⟩ (Db.fresh ⟨0, 0, 0, true⟩)
      [.insert "c" ((createObject.addStringToObject "_id" "d").addStringToObject "a" "x"),
        .createIndex "c" "a", .createIndex "c" "b"] = some _ := rfl
  refine ⟨_, _, rfl, hrun, Reachable.runCalls (fun _ _ _ => rfl) (.fresh _) hrun, by decide, rfl, rfl,
    fun h => ?_⟩
  unfold SecondaryIndexed at h
  exact absurd (h "x").length_eq (by decide)

end AevumDb
