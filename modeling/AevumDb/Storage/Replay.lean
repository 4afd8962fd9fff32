import AevumDb.Storage.PrimaryIndex

/-!
# Logs against memory

`load_all` rebuilds a document collection by replaying its log into a map from
`_id` to document.  This module relates the log of a collection to the
documents in memory along a run: `Replays log index` says that the replay of
`log` maps each `_id` to the document the primary index files under it, read
back from its text.  Every write keeps that relation when its appends succeed,
its documents are objects with fresh `_id`s and none of them reads as a
tombstone, and every call names its collection by the file it reaches; then the
documents in memory are, up to order, those the replay rebuilds.  A caller's
repeated `_id` breaks it, and so do two names of one file (`items`, `./items`):
each has its own slot in memory, and both append to one log.
-/

namespace AevumDb

open Item Recovery

def isDeleted (d : Item) : Bool := isTrue (d.getObjectItem "_deleted")

def reserved (coll : String) : Prop := coll = "_auth" ∨ coll = "_schemas" ∨ coll = "_indexes"

instance : DecidablePred reserved := fun _ => inferInstanceAs (Decidable (_ ∨ _ ∨ _))

theorem isTrue_map_reparseMember (o : Option Item) :
    isTrue (o.map reparseMember) = isTrue o := by
  rcases o with _ | ⟨_ | _ | _ | _ | _ | _ | _, _, _⟩ <;> rfl

theorem isDeleted_reparse {d : Item} (h : d.type = .object) : isDeleted (reparse d) = isDeleted d := by
  obtain ⟨t, k, cs⟩ := d
  cases h
  rw [isDeleted, getObjectItem_reparse_object (by decide), isTrue_map_reparseMember]
  rfl

theorem isDeleted_addStringToObject (d : Item) (s : String) :
    isDeleted (d.addStringToObject "_id" s) = isDeleted d := by
  simp only [isDeleted, addStringToObject, getObjectItem_addItemToObject]
  rw [if_neg (by decide), Option.or_none]

/-!
## The log relation
-/

def Replays (log : List Frame) (index : StrMap Item) : Prop :=
  ∀ u, (replay log).lookup u = (index.lookup u).map reparse

theorem replay_append (log : List Frame) (f : Frame) :
    replay (log ++ [f]) = replayFrame (replay log) f :=
  List.foldl_append _ _ _ _

theorem Replays.nil : Replays [] ∅ := fun _ => rfl

theorem Replays.congr {log : List Frame} {index index' : StrMap Item} (h : Replays log index)
    (heq : ∀ u, index'.lookup u = index.lookup u) : Replays log index' :=
  fun u => (h u).trans (congrArg _ (heq u)).symm

theorem Replays.indexId {log : List Frame} {index : StrMap Item} (h : Replays log index) {d : Item}
    (hobj : d.type = .object) (hlive : isDeleted d = false) :
    Replays (log ++ [some (reparse d)]) (Db.indexId index d) := by
  intro v
  have hdel : isTrue ((reparse d).getObjectItem "_deleted") = false :=
    (isDeleted_reparse hobj).trans hlive
  rw [replay_append, replayFrame, docId_reparse_of_object hobj, Db.indexId]
  cases d.docId with
  | none => exact h v
  | some u =>
      simp only [hdel, Bool.false_eq_true, if_false]
      by_cases hv : v = u
      · subst hv; simp
      · rw [AList.lookup_insert_ne hv, AList.lookup_insert_ne hv]; exact h v

theorem Replays.insert {log : List Frame} {index : StrMap Item} (h : Replays log index) {d : Item}
    {u : String} (hobj : d.type = .object) (hid : d.docId = some u) (hlive : isDeleted d = false) :
    Replays (log ++ [some (reparse d)]) (index.insert u d) := by
  have := h.indexId hobj hlive
  rwa [Db.indexId, hid] at this

theorem Replays.erase {log : List Frame} {index : StrMap Item} (h : Replays log index)
    (u : String) : Replays (log ++ [some (reparse (tombstone u))]) (index.erase u) := by
  intro v
  have hid : (reparse (tombstone u)).docId = some u := rfl
  have hdel : isTrue ((reparse (tombstone u)).getObjectItem "_deleted") = true := rfl
  rw [replay_append, replayFrame, hid]
  simp only [hdel, if_true]
  by_cases hv : v = u
  · subst hv; simp
  · rw [AList.lookup_erase_ne hv, AList.lookup_erase_ne hv]; exact h v

theorem Replays.foldl {log : List Frame} {index : StrMap Item} (h : Replays log index)
    {docs : List Item} (hobj : ∀ d ∈ docs, d.type = .object)
    (hlive : ∀ d ∈ docs, isDeleted d = false) :
    Replays (log ++ docs.map fun d => some (reparse d)) (docs.foldl Db.indexId index) := by
  induction docs generalizing log index with
  | nil => simpa using h
  | cons d docs ih =>
      have hd := h.indexId (hobj d (List.mem_cons_self d docs)) (hlive d (List.mem_cons_self d docs))
      simpa using ih hd (fun e he => hobj e (List.mem_cons_of_mem d he))
        (fun e he => hlive e (List.mem_cons_of_mem d he))

theorem Indexed.lookup_nil {index : StrMap Item} (h : Indexed [] index) (u : String) :
    index.lookup u = none :=
  Option.eq_none_iff_forall_not_mem.mpr fun d hd => by
    simpa using ((h.lookup_iff u d).mp hd).1

theorem Indexed.lookup_eq {docs : List Item} {index index' : StrMap Item} (h : Indexed docs index)
    (h' : Indexed docs index') (u : String) : index'.lookup u = index.lookup u :=
  Option.ext fun d => (h'.lookup_iff u d).trans (h.lookup_iff u d).symm

theorem Replays.perm {log : List Frame} {docs : List Item} {index : StrMap Item}
    (h : Replays log index) (hi : Indexed docs index) :
    ((replay log).entries.map (·.2)).Perm (docs.map reparse) := by
  let key : Item -> (Σ _ : String, Item) := fun d => ⟨(d.docId).getD "", reparse d⟩
  have hkey : ∀ d ∈ docs, ∀ u, (key d).1 = u ↔ d.docId = some u := by
    intro d hd u
    obtain ⟨w, hw⟩ := Option.isSome_iff_exists.mp (hi.ids d hd)
    simp [key, hw]
  have hnodup : (docs.map key).Nodup := by
    refine List.Nodup.map_on (fun d hd e he hde => hi.eq_of_docId hd he ?_) (List.Nodup.of_map docId hi.nodup)
    obtain ⟨w, hw⟩ := Option.isSome_iff_exists.mp (hi.ids d hd)
    have he' : e.docId = some w := (hkey e he w).mp (hde ▸ (hkey d hd w).mpr hw)
    rw [hw, he']
  have hperm : (replay log).entries.Perm (docs.map key) := by
    refine (List.perm_ext_iff_of_nodup (replay log).nodupKeys.nodup hnodup).mpr ?_
    rintro ⟨u, v⟩
    rw [← AList.mem_lookup_iff, Option.mem_def, h u, List.mem_map]
    constructor
    · intro huv
      obtain ⟨d, hd, rfl⟩ := Option.map_eq_some'.mp huv
      obtain ⟨hmem, hid⟩ := (hi.lookup_iff u d).mp hd
      exact ⟨d, hmem, by simp [key, hid]⟩
    · rintro ⟨d, hmem, hdk⟩
      have hid : d.docId = some u := (hkey d hmem u).mp (congrArg Sigma.fst hdk)
      have hv : reparse d = v := by simpa [key] using congrArg Sigma.snd hdk
      rw [(hi.lookup_iff u d).mpr ⟨hmem, hid⟩, Option.map_some', hv]
  simpa [key] using hperm.map (·.2)

/-!
## Runs that keep the log in step
-/

structure Durable (db : Db) (coll : String) : Prop where
  indexed : CollectionIndexed db coll
  live : ∀ d ∈ children (db.memoryStore.get coll), isDeleted d = false
  replays : Replays (Engine.logFrames db.storage coll) (db.idIndexes.get coll)

theorem Durable.congr {db db' : Db} {coll : String} (h : Durable db coll)
    (hm : db'.memoryStore.lookup coll = db.memoryStore.lookup coll)
    (hi : db'.idIndexes.get coll = db.idIndexes.get coll)
    (hs : Engine.logFrames db'.storage coll = Engine.logFrames db.storage coll) : Durable db' coll := by
  have hget : db'.memoryStore.get coll = db.memoryStore.get coll := by simp only [StrMap.get, hm]
  exact ⟨h.indexed.congr hm hi, hget ▸ h.live, hs ▸ hi ▸ h.replays⟩

def LiveUpdate (E : PredicateEngine) (db : Db) (coll : String) (query data : Item) : Prop :=
  ∀ arr out, db.memoryStore.lookup coll = some (some arr) ->
    Db.updatedCollection E arr query data = some out -> ∀ d ∈ out.child, isDeleted d = false

def DurableStep (E : PredicateEngine) : Db -> Env -> Call -> Prop
  | db, env, .insert coll data =>
      env.ioOk = true ∧ FreshInsert env db coll data ∧ isDeleted data = false
  | db, env, .upsert coll query data =>
      env.ioOk = true ∧ ∀ n, db.count E coll (some query) = some n ->
        (0 < n -> LiveUpdate E db coll query data) ∧
        (n ≤ 0 -> FreshInsert env db coll data ∧ isDeleted data = false)
  | db, env, .update coll query data => env.ioOk = true ∧ LiveUpdate E db coll query data
  | _, env, _ => env.ioOk = true

def durableCalls (E : PredicateEngine) (db : Db) (env : Env) (c : Call) : Prop :=
  Engine.fileKey c.target = c.target ∧ DurableStep E db env c

theorem ioOk_of_durableStep {E : PredicateEngine} {db : Db} {env : Env} {c : Call}
    (h : DurableStep E db env c) : env.ioOk = true := by
  cases c <;> first | exact h.1 | exact h

theorem fileKey_ne {c coll : String} (hc : Engine.fileKey c = c) (hcoll : Engine.fileKey coll = coll)
    (hne : c ≠ coll) : Engine.fileKey c ≠ Engine.fileKey coll := by
  rwa [hc, hcoll]

namespace Db

variable {E : PredicateEngine} {env : Env} {db : Db} {coll c : String}

theorem assignId_isDeleted {data item : Item} {uuid : String}
    (h : assignId env data = some (uuid, item)) : isDeleted item = isDeleted data := by
  unfold assignId at h
  split at h
  · obtain ⟨_, -, heq⟩ := Option.map_eq_some'.mp h
    cases heq; rfl
  · obtain ⟨rfl, rfl⟩ := Prod.mk.inj (Option.some.inj h)
    exact isDeleted_addStringToObject _ _

theorem durable_getCollection (h : Durable db c) : Durable (db.getCollection coll) c := by
  by_cases hnew : c = coll ∧ coll ∉ db.memoryStore
  · have hdocs : children (db.memoryStore.get c) = [] := by
      rw [StrMap.get, AList.lookup_eq_none.mpr (hnew.1 ▸ hnew.2)]; rfl
    have hempty := (hdocs ▸ h.indexed.indexed).lookup_nil
    refine ⟨collectionIndexed_getCollection h.indexed, ?_, ?_⟩
    · simp [StrMap.get, memoryStore_lookup_getCollection, hnew, createArray, children]
    · rw [storage_getCollection, idIndexes_get_getCollection, if_pos hnew]
      exact h.replays.congr fun u => (hempty u).symm
  · exact h.congr (by rw [memoryStore_lookup_getCollection, if_neg hnew])
      (by rw [idIndexes_get_getCollection, if_neg hnew]) (by rw [storage_getCollection])

theorem durable_inserted (h : Durable db c) (hmem : coll ∈ db.memoryStore) {uuid : String}
    {item : Item} (hobj : item.type = .object) (hid : item.docId = some uuid)
    (hfresh : ∀ d ∈ children (db.memoryStore.get coll), d.docId ≠ some uuid)
    (hlive : isDeleted item = false) (hc : Engine.fileKey c = c) (hcoll : Engine.fileKey coll = coll) :
    Durable (db.inserted coll uuid item true) c := by
  have hindexed := collectionIndexed_inserted h.indexed hmem hobj hid hfresh true
  by_cases hcc : c = coll
  · subst hcc
    refine ⟨hindexed, ?_, ?_⟩
    · obtain ⟨k, hl⟩ := h.indexed.array hmem
      have hget : (db.inserted c uuid item true).memoryStore.get c =
          some ⟨.array, k, children (db.memoryStore.get c) ++ [item]⟩ := by
        simp only [inserted, StrMap.get_insert_self]
        rw [StrMap.get_of_lookup _ hl]
        rfl
      rw [hget]
      intro d hd
      rcases List.mem_append.mp hd with hd | hd
      · exact h.live d hd
      · rw [List.mem_singleton.mp hd]; exact hlive
    · simp only [inserted, Engine.logFrames_append_self, StrMap.get_modify_self]
      exact h.replays.insert hobj hid hlive
  · exact h.congr (AList.lookup_insert_ne hcc) (StrMap.get_modify_ne _ _ hcc)
      (Engine.logFrames_append_ne _ _ _ (fileKey_ne hc hcoll hcc))

theorem durable_insert {data : Item} {r : Bool} {db' : Db} (hok : env.ioOk = true)
    (hfresh : FreshInsert env db coll data) (hlive : isDeleted data = false)
    (hstep : db.insert E env coll data = some (r, db')) (h : Durable db c) (hc : Engine.fileKey c = c)
    (hcoll : Engine.fileKey coll = coll) : Durable db' c := by
  rcases insert_eq_some hstep with ⟨-, -, rfl⟩ | ⟨uuid, item, -, ha, -, rfl⟩
  · exact h
  · obtain ⟨hid, htype⟩ := assignId_eq_some ha
    rw [hok]
    refine durable_inserted (durable_getCollection h) (mem_getCollection db coll)
      (htype.trans hfresh.1) hid ?_ ((assignId_isDeleted ha).trans hlive) hc hcoll
    rw [children_getCollection]
    exact hfresh.2 uuid item ha

theorem durable_removeOne (h : Durable db c) (hmem : coll ∈ db.memoryStore) (uuid : String)
    (hok : env.ioOk = true) (hc : Engine.fileKey c = c) (hcoll : Engine.fileKey coll = coll) :
    Durable (db.removeOne env coll uuid) c := by
  have hindexed : CollectionIndexed (db.removeOne env coll uuid) c :=
    collectionIndexed_removeOne h.indexed hmem uuid
  rw [removeOne_eq] at hindexed ⊢
  cases ht : (db.idIndexes.get coll).lookup uuid with
  | none => exact h.congr rfl (StrMap.get_touch _ _ _) rfl
  | some target =>
      simp only [ht] at hindexed ⊢
      by_cases hcc : c = coll
      · subst hcc
        refine ⟨hindexed, ?_, ?_⟩
        · obtain ⟨k, hl⟩ := h.indexed.array hmem
          have hget : StrMap.get (db.memoryStore.modify c (detachItemViaPointer · target)) c =
              some ⟨.array, k, (children (db.memoryStore.get c)).erase target⟩ := by
            rw [StrMap.get_modify_self, StrMap.get_of_lookup _ hl]
            rfl
          rw [hget]
          exact fun d hd => h.live d (List.mem_of_mem_erase hd)
        · simp only [hok, Engine.logFrames_append_self, StrMap.get_modify_self, StrMap.get_touch]
          exact h.replays.erase uuid
      · exact h.congr (StrMap.lookup_modify_ne _ _ hcc)
          ((StrMap.get_modify_ne _ _ hcc).trans (StrMap.get_touch _ _ _))
          (Engine.logFrames_append_ne _ _ _ (fileKey_ne hc hcoll hcc))

theorem durable_foldl_removeOne (h : Durable db c) (hmem : coll ∈ db.memoryStore)
    (ids : List String) (hok : env.ioOk = true) (hc : Engine.fileKey c = c)
    (hcoll : Engine.fileKey coll = coll) :
    Durable (ids.foldl (fun db uuid => db.removeOne env coll uuid) db) c := by
  induction ids generalizing db with
  | nil => exact h
  | cons uuid ids ih => exact ih (durable_removeOne h hmem uuid hok hc hcoll) (mem_removeOne hmem uuid)

theorem durable_remove {query : Item} {r : Bool} {db' : Db} (hok : env.ioOk = true)
    (hstep : db.remove E env coll query = some (r, db')) (h : Durable db c) (hc : Engine.fileKey c = c)
    (hcoll : Engine.fileKey coll = coll) : Durable db' c := by
  rcases remove_eq_some hstep with rfl | ⟨hmem, ids, db₁, ht, rfl⟩
  · exact h
  · obtain ⟨ii, ci, hdb₁, hii, -⟩ := removeIndexed_snd db coll query
    rw [removeTargets_eq_some ht, hdb₁]
    have hget : ii.get c = db.idIndexes.get c := by
      rcases hii with rfl | rfl
      · rfl
      · exact StrMap.get_touch _ _ _
    have h₁ : Durable { db with idIndexes := ii, customIndexes := ci } c := h.congr rfl hget rfl
    exact durable_foldl_removeOne h₁ hmem ids hok hc hcoll

theorem durable_update (hE : E.KeepsIds) {query data : Item} {r : Bool} {db' : Db}
    (hok : env.ioOk = true) (hlive : LiveUpdate E db coll query data)
    (hstep : db.update E env coll query data = some (r, db')) (h : Durable db c)
    (hc : Engine.fileKey c = c) (hcoll : Engine.fileKey coll = coll) : Durable db' c := by
  have hindexed := collectionIndexed_update hE hstep h.indexed
  rcases update_eq_some hstep with ⟨-, -, rfl⟩ | ⟨arr, hl, -, rfl⟩
  · exact h
  · rw [compactCollection_snd, rebuildIndex_eq] at hindexed ⊢
    simp only [AList.lookup_insert, hok] at hindexed ⊢
    by_cases hcc : c = coll
    · subst hcc
      obtain ⟨k, hl'⟩ := h.indexed.array (AList.lookup_isSome.mp (by rw [hl]; rfl))
      rw [hl] at hl'
      cases hl'
      obtain ⟨out, hstored, hout⟩ := hE.indexed_update h.indexed.indexed k query data
      have hdocs := hlive _ _ hl hstored
      refine ⟨hindexed, ?_, ?_⟩
      · simpa only [StrMap.get_insert_self, hstored] using hdocs
      · simp only [hstored, Engine.logFrames_compact_self, StrMap.get_insert_self]
        simpa [primaryIndex] using Replays.nil.foldl hout.objects hdocs
    · exact h.congr (AList.lookup_insert_ne hcc) (StrMap.get_insert_ne _ _ hcc)
        (Engine.logFrames_compact_ne _ _ _ (fileKey_ne hc hcoll hcc))

theorem durable_compactCollection (h : Durable db c) (coll : String) (hc : Engine.fileKey c = c)
    (hcoll : Engine.fileKey coll = coll) : Durable (db.compactCollection coll true).2 c := by
  rw [compactCollection_snd]
  cases hl : db.memoryStore.lookup coll with
  | none => exact h.congr rfl rfl rfl
  | some arr =>
      by_cases hcc : c = coll
      · subst hcc
        obtain ⟨k, hl'⟩ := h.indexed.array (AList.lookup_isSome.mp (by rw [hl]; rfl))
        rw [hl] at hl'
        cases hl'
        have hi := h.indexed.indexed
        have hcompact := Replays.nil.foldl hi.objects h.live
        rw [List.nil_append] at hcompact
        refine ⟨h.indexed.congr rfl rfl, h.live, ?_⟩
        rw [Engine.logFrames_compact_self]
        exact hcompact.congr (Indexed.lookup_eq (Indexed.primaryIndex hi.objects hi.ids hi.nodup) hi)
      · exact h.congr rfl rfl (Engine.logFrames_compact_ne _ _ _ (fileKey_ne hc hcoll hcc))

theorem fileKey_ne_reserved (hc : Engine.fileKey c = c) (hr : ¬ reserved c) :
    Engine.fileKey c ≠ "_auth" ∧ Engine.fileKey c ≠ "_schemas" ∧ Engine.fileKey c ≠ "_indexes" := by
  rw [hc]
  exact ⟨fun e => hr (Or.inl e), fun e => hr (Or.inr (Or.inl e)), fun e => hr (Or.inr (Or.inr e))⟩

theorem durable_call (hE : E.KeepsIds) {call : Call} {r : Bool} {db' : Db}
    (hallow : durableCalls E db env call) (hstep : db.call E env call = some (r, db'))
    (hc : ¬ reserved c) (hres : Engine.fileKey c = c) (h : Durable db c) : Durable db' c := by
  obtain ⟨htarget, hallow⟩ := hallow
  have hok := ioOk_of_durableStep hallow
  obtain ⟨ha, hs, hi⟩ := fileKey_ne_reserved hres hc
  cases call with
  | insert coll data => exact durable_insert hok hallow.2.1 hallow.2.2 hstep h hres htarget
  | upsert coll query data =>
      obtain ⟨n, hn, ⟨hpos, hup⟩ | ⟨hle, hins⟩⟩ := upsert_eq_some hstep
      · exact durable_update hE hok ((hallow.2 n hn).1 hpos) hup h hres htarget
      · obtain ⟨hfresh, hlive⟩ := (hallow.2 n hn).2 hle
        exact durable_insert hok hfresh hlive hins h hres htarget
  | update coll query data => exact durable_update hE hok hallow.2 hstep h hres htarget
  | remove coll query => exact durable_remove hok hstep h hres htarget
  | createIndex coll field =>
      have hdb := congrArg Prod.snd (Option.some.inj hstep)
      subst hdb
      rw [createIndex_snd]
      split
      · exact h
      · exact h.congr rfl rfl (Engine.logFrames_compact_ne _ _ _ (by rwa [Engine.fileKey_indexes]))
  | setSchema coll schema =>
      cases congrArg Prod.snd (Option.some.inj hstep)
      exact h.congr rfl rfl (Engine.logFrames_append_ne _ _ _ (by rwa [Engine.fileKey_schemas]))
  | createUser key role =>
      obtain rfl : db' = (db.createUser env key role).2 := (congrArg Prod.snd (Option.some.inj hstep)).symm
      obtain ⟨hm, hi, -⟩ := createUser_other env db key role fun e => hc (Or.inl e)
      refine h.congr hm hi ?_
      rw [Engine.logFrames, storage_createUser]
      exact Engine.get_append_ne _ _ _ (by rwa [Engine.fileKey_auth])
  | triggerCompaction coll =>
      cases congrArg Prod.snd (Option.some.inj hstep)
      rw [triggerCompaction, hok]
      exact durable_compactCollection h coll hres htarget

theorem durable_fresh (env : Env) (hc : ¬ reserved c) (hres : Engine.fileKey c = c) :
    Durable (Db.fresh env) c := by
  have hauth : c ≠ "_auth" := fun e => hc (Or.inl e)
  have hindexed := collectionIndexed_fresh env hauth
  have hl : (Db.fresh env).memoryStore.lookup c = none :=
    AList.lookup_eq_none.mpr fun hmem => hauth (eq_auth_of_mem_fresh hmem)
  have hs : Engine.logFrames (Db.fresh env).storage c = [] := by
    rw [Db.fresh, Engine.logFrames, storage_createUser,
      Engine.get_append_ne _ _ _ (by rwa [Engine.fileKey_auth, hres])]
    rfl
  have hdocs : children ((Db.fresh env).memoryStore.get c) = [] := by rw [StrMap.get, hl]; rfl
  refine ⟨hindexed, by simp [hdocs], ?_⟩
  rw [hs]
  exact Replays.nil.congr (hdocs ▸ hindexed.indexed).lookup_nil

end Db

/-!
## Every run
-/

theorem durable_of_durableCalls {E : PredicateEngine} (hE : E.KeepsIds) {db : Db}
    (h : Reachable E (durableCalls E) db) {coll : String} (hc : ¬ reserved coll)
    (hres : Engine.fileKey coll = coll) : Durable db coll := by
  refine Reachable.induct_on (P := fun db => ∀ c, ¬ reserved c -> Engine.fileKey c = c -> Durable db c)
    (fun env c hc hres => Db.durable_fresh env hc hres) ?_ h coll hc hres
  intro db db' env call r ih hallow hstep c hc hres
  exact Db.durable_call hE hallow hstep hc hres (ih c hc hres)

theorem memory_perm_replay {E : PredicateEngine} (hE : E.KeepsIds) {db : Db}
    (h : Reachable E (durableCalls E) db) {coll : String} (hc : ¬ reserved coll)
    (hres : Engine.fileKey coll = coll) :
    ((children (db.memoryStore.get coll)).map reparse).Perm
      ((replay (Engine.logFrames db.storage coll)).entries.map (·.2)) :=
  have hd := durable_of_durableCalls hE h hc hres
  (hd.replays.perm hd.indexed.indexed).symm

end AevumDb
