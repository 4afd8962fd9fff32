import AevumDb.Storage.Metadata

/-!
# Reopening the directory of a run

Destroying a `Db` leaves its data directory, and constructing a new `Db` on it
replays every listed file.  A document collection comes back as the array its
log replays to, and along the runs of `Replay` that array holds the same
documents as the old memory, read back from their text.  The construction
itself returns when the reserved logs are readable, which `Metadata` keeps
along every run that writes no document into them.

Runs that insert a caller's `_id` twice, insert or update a document whose
`_deleted` member is true, or insert a document without string credentials
into `_auth`, break this; the last makes `Db::Db` fail on the directory.
-/

namespace AevumDb

open Item Recovery

theorem loadable_of_metaReadable {db : Db} (h : MetaReadable db)
    {order : String -> List Item -> List Item} (horder : ∀ n l, (order n l).Perm l)
    (name : String) : Db.Loadable order db.storage name := by
  refine ⟨fun hn fields => ?_, fun hn cache => ?_⟩
  · subst hn
    exact Db.foldlM_isSome (fun b f hf => h.indexes f hf b) fields
  · subst hn
    exact Db.foldlM_isSome
      (fun b x hx => h.authLog x (mem_replay_values ((horder _ _).subset hx)) b) cache

theorem loadAll_of_metaReadable {db : Db} (h : MetaReadable db)
    {order : String -> List Item -> List Item} (horder : ∀ n l, (order n l).Perm l)
    {names : List String} (hnodup : names.Nodup) (hres : ∀ n ∈ names, Engine.fileKey n = n) (env : Env) :
    exists db₁, Db.loadAll order env names (Db.onDisk db.storage) = some db₁ :=
  Option.isSome_iff_exists.mp (Db.loadAll_isSome hnodup hres fun n _ => loadable_of_metaReadable h horder n)

/-- Constructing a `Db` on a readable directory, listed by list_collections in any order,
returns, with each document collection that list_collections can name holding what its log
replays to. -/
theorem construct_collection {db : Db} (h : MetaReadable db)
    {order : String -> List Item -> List Item} (horder : ∀ n l, (order n l).Perm l)
    {names : List String} (hnames : names.Perm (Engine.listing db.storage)) (env : Env) {coll : String}
    (hc : ¬ reserved coll) (hne : coll ≠ "") (hslash : '/' ∉ coll.data) :
    exists db₂, Db.construct order env db.storage names = some db₂ ∧
      (children (db₂.memoryStore.get coll)).Perm
        ((replay (Engine.logFrames db.storage coll)).entries.map (·.2)) := by
  have hnodup : names.Nodup := hnames.nodup_iff.mpr (Engine.nodup_listing _)
  have hres : ∀ n ∈ names, Engine.fileKey n = n :=
    fun n hn => Engine.fileKey_of_mem_listing _ (hnames.subset hn)
  obtain ⟨db₁, h₁⟩ := loadAll_of_metaReadable h horder hnodup hres env
  obtain ⟨db₂, h₂, hl, -⟩ := Db.construct_other h₁ fun e => hc (Or.inl e)
  refine ⟨db₂, h₂, ?_⟩
  rw [StrMap.get, hl]
  by_cases hmem : coll ∈ names
  · rw [Db.loadAll_collection hnodup hmem hres (fun e => hc (Or.inr (Or.inr e)))
      (fun e => hc (Or.inr (Or.inl e))) h₁]
    exact horder _ _
  · rw [Db.loadAll_lookup h₁ hmem,
      Engine.logFrames_of_not_mem_listing _ hne hslash fun h => hmem (hnames.mem_iff.mpr h)]
    exact .nil

def replayableCalls (E : PredicateEngine) : Db -> Env -> Call -> Prop :=
  fun db env c => durableCalls E db env c ∧ keepsMetadata db env c

/-- Every document collection that list_collections can name holds, along a run, what its log
replays to, and comes back so, up to the order of its documents, from a new `Db` constructed on
the directory. -/
theorem restart_reproduces_collections {E : PredicateEngine} (hE : E.KeepsIds) {db : Db}
    (h : Reachable E (replayableCalls E) db) {coll : String} (hc : ¬ reserved coll)
    (hne : coll ≠ "") (hslash : '/' ∉ coll.data) :
    ((children (db.memoryStore.get coll)).map reparse).Perm
        ((replay (Engine.logFrames db.storage coll)).entries.map (·.2)) ∧
      ∀ (order : String -> List Item -> List Item), (∀ n l, (order n l).Perm l) ->
      ∀ names : List String, names.Perm (Engine.listing db.storage) -> ∀ env : Env,
      exists db₂, Db.construct order env db.storage names = some db₂ ∧
        (children (db₂.memoryStore.get coll)).Perm ((children (db.memoryStore.get coll)).map reparse) := by
  have hreplay := memory_perm_replay hE (h.mono fun _ _ _ hc => hc.1) hc (Engine.fileKey_of_slashFree hslash)
  refine ⟨hreplay, fun order horder names hnames env => ?_⟩
  obtain ⟨db₂, h₂, hp⟩ := construct_collection
    (metaReadable_of_keepsMetadata (fun _ _ _ hc => hc.2) h) horder hnames env hc hne hslash
  exact ⟨db₂, h₂, hp.trans hreplay.symm⟩

theorem restart_after_one_insert :
    let db := ((Db.fresh ⟨0, 0, 0, true⟩).getCollection "items").inserted "items" "a"
      (createObject.addStringToObject "_id" "a") true
    "items" ≠ "" ∧ '/' ∉ "items".data ∧
    ((children (db.memoryStore.get "items")).map reparse).Perm
        ((replay (Engine.logFrames db.storage "items")).entries.map (·.2)) ∧
      ∀ (order : String -> List Item -> List Item), (∀ n l, (order n l).Perm l) ->
      ∀ names : List String, names.Perm (Engine.listing db.storage) -> ∀ env : Env,
      exists db₂, Db.construct order env db.storage names = some db₂ ∧
        (children (db₂.memoryStore.get "items")).Perm
          ((children (db.memoryStore.get "items")).map reparse) :=
  ⟨by decide, by decide, restart_reproduces_collections PredicateEngine.unchanged_keepsIds
    (Reachable.call ⟨0, 0, 0, true⟩ (.insert "items" (createObject.addStringToObject "_id" "a"))
      (Reachable.fresh ⟨0, 0, 0, true⟩)
      ⟨⟨by decide, rfl, ⟨rfl, fun _ _ _ d hd => nomatch (show d ∈ [] from hd)⟩, rfl⟩, by decide, by decide⟩ rfl)
    (by decide) (by decide) (by decide)⟩

/-- set_schema logs the schema as it is given, and load_all files a `_schemas` frame under the
collection its own `collection` member names: a schema without one is gone after a restart,
whatever order the directory is listed in. -/
theorem schema_lost_on_restart :
    exists db, ((Db.fresh ⟨0, 0, 0, true⟩).setSchema ⟨0, 0, 0, true⟩ "users"
        (createObject.addItemToObject "required" ⟨.array, none, [createString "name"]⟩)).2 = db ∧
      db.schemas.lookup "users" =
        some (createObject.addItemToObject "required" ⟨.array, none, [createString "name"]⟩) ∧
      ∀ (order : String -> List Item -> List Item), (∀ n l, (order n l).Perm l) ->
      ∀ names : List String, names.Perm db.storage.keys -> ∀ env : Env,
      exists db₂, Db.construct order env db.storage names = some db₂ ∧
        db₂.schemas.lookup "users" = none := by
  refine ⟨_, rfl, rfl, fun order horder names hnames env => ?_⟩
  have hm := metaReadable_of_keepsMetadata (fun _ _ _ h => h)
    (Reachable.call (E := PredicateEngine.unchanged) ⟨0, 0, 0, true⟩ (.setSchema "users"
      (createObject.addItemToObject "required" ⟨.array, none, [createString "name"]⟩))
      (.fresh ⟨0, 0, 0, true⟩) trivial rfl)
  have hnodup : names.Nodup := hnames.nodup_iff.mpr (AList.keys_nodup _)
  -- the directory holds `_schemas.aev` and `_auth.aev`
  have hres : ∀ n ∈ names, Engine.fileKey n = n := by
    intro n hn
    rcases List.mem_pair.mp (hnames.subset hn) with rfl | rfl <;> simp
  obtain ⟨db₁, h₁⟩ := loadAll_of_metaReadable hm horder hnodup hres env
  refine ⟨_, Db.construct_eq h₁, ?_⟩
  have hs := Db.loadAll_schemas hnodup hres h₁
  split
  · rw [Db.schemas_createUser, hs]
    split <;> rfl
  · rw [hs]
    split <;> rfl

/-- Four runs whose writes all succeed, under an engine that keeps `_id`s: a caller's `_id`
inserted twice leaves two documents in memory and one in the replay; a document inserted with
a true `_deleted` member stays in memory and replays to nothing; `./items` writes the log of
`items`; and a document without string credentials inserted into `_auth` makes the
construction on the directory fail.  A document holding `0.30000000000000004` is logged as
`0.3`, so the replay holds the documents as read back from their text. -/
theorem restart_loses_collections :
    PredicateEngine.unchanged.KeepsIds ∧
      (exists db, Reachable PredicateEngine.unchanged succeeding db ∧
        (∀ d ∈ children (db.memoryStore.get "items"), isDeleted d = false) ∧
        ¬ ((children (db.memoryStore.get "items")).map reparse).Perm
          ((replay (Engine.logFrames db.storage "items")).entries.map (·.2))) ∧
      (exists db, Reachable PredicateEngine.unchanged succeeding db ∧
        ((children (db.memoryStore.get "items")).map docId).Nodup ∧
        ¬ ((children (db.memoryStore.get "items")).map reparse).Perm
          ((replay (Engine.logFrames db.storage "items")).entries.map (·.2))) ∧
      (exists db, Reachable PredicateEngine.unchanged succeeding db ∧
        ((children (db.memoryStore.get "items")).map docId).Nodup ∧
        (∀ d ∈ children (db.memoryStore.get "items"), isDeleted d = false) ∧
        ¬ ((children (db.memoryStore.get "items")).map reparse).Perm
          ((replay (Engine.logFrames db.storage "items")).entries.map (·.2))) ∧
      (exists db, Reachable PredicateEngine.unchanged succeeding db ∧
        Db.construct (fun _ l => l) ⟨0, 0, 0, true⟩ db.storage (Engine.listing db.storage) = none) ∧
      (exists db, Reachable PredicateEngine.unchanged succeeding db ∧
        ¬ (children (db.memoryStore.get "items")).Perm
          ((replay (Engine.logFrames db.storage "items")).entries.map (·.2))) := by
  have hfresh : Reachable PredicateEngine.unchanged succeeding (Db.fresh ⟨0, 0, 0, true⟩) :=
    .fresh _
  -- memory holds `0.30000000000000004` as inserted, the log as printed
  obtain ⟨db, hdb⟩ : ∃ db, (Db.fresh ⟨0, 0, 0, true⟩).call PredicateEngine.unchanged ⟨0, 0, 0, true⟩
      (.insert "items" ((createObject.addStringToObject "_id" "a").addNumberToObject "x"
        (30000000000000004 / 10 ^ 17))) = some (true, db) := ⟨_, by rfl⟩
  have hprinted : ¬ (children (db.memoryStore.get "items")).Perm
      ((replay (Engine.logFrames db.storage "items")).entries.map (·.2)) := by
    have hmem : children (db.memoryStore.get "items") =
        [(createObject.addStringToObject "_id" "a").addNumberToObject "x" (30000000000000004 / 10 ^ 17)] := by
      cases hdb; rfl
    have hlog : (replay (Engine.logFrames db.storage "items")).entries.map (·.2) =
        [reparse ((createObject.addStringToObject "_id" "a").addNumberToObject "x" (30000000000000004 / 10 ^ 17))] := by
      cases hdb; rfl
    rw [hmem, hlog, List.perm_singleton, List.singleton_inj]
    exact fun hp => reparse_ne_of_point_three hp.symm
  refine ⟨PredicateEngine.unchanged_keepsIds,
    ⟨_, .call ⟨0, 0, 0, true⟩ (.insert "items" (createObject.addStringToObject "_id" "a"))
      (.call ⟨0, 0, 0, true⟩ (.insert "items" (createObject.addStringToObject "_id" "a"))
        hfresh rfl rfl) rfl rfl, by decide, fun hp => absurd hp.length_eq (by decide)⟩,
    ⟨_, .call ⟨0, 0, 0, true⟩
      (.insert "items" ((createObject.addStringToObject "_id" "a").addBoolToObject "_deleted" true))
      hfresh rfl rfl, by decide, fun hp => absurd hp.length_eq (by decide)⟩,
    ⟨_, .call ⟨0, 0, 0, true⟩ (.insert "./items" (createObject.addStringToObject "_id" "b"))
      (.call ⟨0, 0, 0, true⟩ (.insert "items" (createObject.addStringToObject "_id" "a"))
        hfresh rfl rfl) rfl rfl, by decide, by decide, fun hp => absurd hp.length_eq (by decide)⟩,
    ⟨_, .call ⟨0, 0, 0, true⟩ (.insert "_auth" (((createObject.addStringToObject "_id" "g"
      ).addNumberToObject "key_hash" 0).addStringToObject "role" "admin")) hfresh rfl rfl, rfl⟩,
    ⟨db, .call ⟨0, 0, 0, true⟩ _ hfresh rfl hdb, hprinted⟩⟩

end AevumDb
