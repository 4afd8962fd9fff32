import AevumDb.Storage.Replay

/-!
# Restarting on a directory

`Db::Db` replays each listed file once.  Loading a file writes the state of its
own collection (and, for `_auth`, `_schemas` and `_indexes`, the credential
cache, the schema registry and the registered fields), and compacts only its
own file.  So a document collection comes back as the array its own log
replays to, whatever the listing order, and the load succeeds exactly when
the `_indexes` frames and the `_auth` documents carry string members where the
loader reads them.
-/

namespace AevumDb

open Item Recovery

namespace Db

variable {order : String -> List Item -> List Item} {env : Env} {db db' : Db} {name c : String}

/-!
## Loading one file
-/

theorem loadCollection_document (hi : name ≠ "_indexes") (hs : name ≠ "_schemas")
    (h : loadCollection order env db name = some db') :
    let arr := collectionArray order name (Engine.logFrames db.storage name)
    exists ii ci cache s,
      db' = { db with memoryStore := db.memoryStore.insert name (some arr), idIndexes := ii,
                      customIndexes := ci, authCache := cache, storage := s } ∧
      (∀ k, k ≠ Engine.fileKey name -> s.get k = db.storage.get k) ∧
      (name ≠ "_auth" -> cache = db.authCache) := by
  unfold loadCollection at h
  rw [if_neg hi, if_neg hs] at h
  simp only [rebuildIndex_eq] at h
  obtain ⟨db₁, hloaded, rfl⟩ := Option.map_eq_some'.mp h
  have hstorage : ∀ ok, ∀ k, k ≠ Engine.fileKey name ->
      StrMap.get (Engine.compact db.storage name
        (children (some (collectionArray order name (Engine.logFrames db.storage name)))) ok) k =
        db.storage.get k := fun ok k hk => Engine.get_compact_ne _ _ ok hk
  split at hloaded
  · rename_i hauth
    obtain ⟨cache, -, rfl⟩ := Option.map_eq_some'.mp hloaded
    split
    · rw [compactCollection_snd]
      refine ⟨_, _, cache, _, rfl, ?_, fun h => absurd hauth h⟩
      simpa only [AList.lookup_insert] using hstorage env.ioOk
    · exact ⟨_, _, cache, _, rfl, fun _ _ => rfl, fun h => absurd hauth h⟩
  · cases hloaded
    split
    · rw [compactCollection_snd]
      refine ⟨_, _, db.authCache, _, rfl, ?_, fun _ => rfl⟩
      simpa only [AList.lookup_insert] using hstorage env.ioOk
    · exact ⟨_, _, db.authCache, _, rfl, fun _ _ => rfl, fun _ => rfl⟩

theorem loadCollection_indexes (h : loadCollection order env db "_indexes" = some db') :
    exists fields, ((Engine.logFrames db.storage "_indexes").foldlM loadIndexFrame db.indexedFields =
      some fields) ∧ db' = { db with indexedFields := fields } := by
  unfold loadCollection at h
  rw [if_pos rfl] at h
  obtain ⟨fields, hf, rfl⟩ := Option.map_eq_some'.mp h
  exact ⟨fields, hf, rfl⟩

theorem loadCollection_schemas (h : loadCollection order env db "_schemas" = some db') :
    db' = { db with schemas := (Engine.logFrames db.storage "_schemas").foldl loadSchemaFrame db.schemas } := by
  unfold loadCollection at h
  rw [if_neg (by decide), if_pos rfl] at h
  exact (Option.some.inj h).symm

theorem loadCollection_frame (h : loadCollection order env db name = some db') (hc : c ≠ name) :
    db'.memoryStore.lookup c = db.memoryStore.lookup c ∧
      ∀ k, k ≠ Engine.fileKey name -> db'.storage.get k = db.storage.get k := by
  by_cases hi : name = "_indexes"
  · subst hi
    obtain ⟨fields, -, rfl⟩ := loadCollection_indexes h
    exact ⟨rfl, fun _ _ => rfl⟩
  by_cases hs : name = "_schemas"
  · subst hs
    rw [loadCollection_schemas h]
    exact ⟨rfl, fun _ _ => rfl⟩
  obtain ⟨ii, ci, cache, s, rfl, hs', -⟩ := loadCollection_document hi hs h
  exact ⟨AList.lookup_insert_ne hc, hs'⟩

theorem loadCollection_frames (h : loadCollection order env db name = some db') (hc : c ≠ name)
    (hcres : Engine.fileKey c = c) (hres : Engine.fileKey name = name) :
    Engine.logFrames db'.storage c = Engine.logFrames db.storage c :=
  (loadCollection_frame h hc).2 _ (fileKey_ne hcres hres hc)

theorem loadCollection_auth (h : loadCollection order env db "_auth" = some db') :
    (collectionArray order "_auth" (Engine.logFrames db.storage "_auth")).child.foldlM loadCredential
      db.authCache = some db'.authCache := by
  unfold loadCollection at h
  rw [if_neg (by decide), if_neg (by decide)] at h
  dsimp only at h
  rw [if_pos rfl, rebuildIndex_eq] at h
  obtain ⟨db₁, hloaded, rfl⟩ := Option.map_eq_some'.mp h
  obtain ⟨cache, hcache, rfl⟩ := Option.map_eq_some'.mp hloaded
  rw [hcache]
  split
  · rw [compactCollection_snd]
  · rfl

theorem loadCollection_authCache_ne (h : loadCollection order env db name = some db')
    (ha : name ≠ "_auth") : db'.authCache = db.authCache := by
  by_cases hi : name = "_indexes"
  · subst hi
    obtain ⟨fields, -, rfl⟩ := loadCollection_indexes h
    rfl
  by_cases hs : name = "_schemas"
  · subst hs
    rw [loadCollection_schemas h]
  · obtain ⟨ii, ci, cache, s, rfl, -, hc⟩ := loadCollection_document hi hs h
    exact hc ha

theorem loadCollection_schemas_ne (h : loadCollection order env db name = some db')
    (hs : name ≠ "_schemas") : db'.schemas = db.schemas := by
  by_cases hi : name = "_indexes"
  · subst hi
    obtain ⟨fields, -, rfl⟩ := loadCollection_indexes h
    rfl
  · obtain ⟨ii, ci, cache, s, rfl, -, -⟩ := loadCollection_document hi hs h
    rfl

/-!
## Loading the listing

The names a listing gives are file stems, each the name of the file it reaches.
-/

theorem loadAll_cons (names : List String) (n : String) :
    loadAll order env (n :: names) db = (loadCollection order env db n).bind (loadAll order env names) :=
  List.foldlM_cons _ _ _ _

theorem loadAll_lookup {names : List String} (h : loadAll order env names db = some db') (hc : c ∉ names) :
    db'.memoryStore.lookup c = db.memoryStore.lookup c := by
  induction names generalizing db with
  | nil => cases h; rfl
  | cons n names ih =>
      rw [loadAll_cons] at h
      obtain ⟨db₁, h₁, h⟩ := Option.bind_eq_some.mp h
      exact (ih h fun hmem => hc (List.mem_cons_of_mem n hmem)).trans
        (loadCollection_frame h₁ fun e => hc (List.mem_cons.mpr (Or.inl e))).1

theorem loadAll_frames {names : List String} (h : loadAll order env names db = some db')
    (hc : c ∉ names) (hres : ∀ n ∈ names, Engine.fileKey n = n) (hcres : Engine.fileKey c = c) :
    Engine.logFrames db'.storage c = Engine.logFrames db.storage c := by
  induction names generalizing db with
  | nil => cases h; rfl
  | cons n names ih =>
      rw [loadAll_cons] at h
      obtain ⟨db₁, h₁, h⟩ := Option.bind_eq_some.mp h
      have hne : c ≠ n := fun e => hc (List.mem_cons.mpr (Or.inl e))
      exact (ih h (fun hmem => hc (List.mem_cons_of_mem n hmem)) fun m hm => hres m (List.mem_cons_of_mem n hm)).trans
        (loadCollection_frames h₁ hne hcres (hres n (List.mem_cons_self n names)))

theorem loadAll_collection {names : List String} (hnodup : names.Nodup) (hmem : c ∈ names)
    (hres : ∀ n ∈ names, Engine.fileKey n = n) (hi : c ≠ "_indexes") (hs : c ≠ "_schemas")
    (h : loadAll order env names db = some db') :
    db'.memoryStore.lookup c = some (some (collectionArray order c (Engine.logFrames db.storage c))) := by
  induction names generalizing db with
  | nil => cases hmem
  | cons n names ih =>
      rw [loadAll_cons] at h
      obtain ⟨db₁, h₁, h⟩ := Option.bind_eq_some.mp h
      have hres' : ∀ m ∈ names, Engine.fileKey m = m := fun m hm => hres m (List.mem_cons_of_mem n hm)
      by_cases hn : c = n
      · subst hn
        obtain ⟨ii, ci, cache, s, rfl, -, -⟩ := loadCollection_document hi hs h₁
        rw [loadAll_lookup h (List.nodup_cons.mp hnodup).1]
        exact AList.lookup_insert _
      · rw [ih (List.nodup_cons.mp hnodup).2 ((List.mem_cons.mp hmem).resolve_left hn) hres' h,
          loadCollection_frames h₁ hn (hres c hmem) (hres n (List.mem_cons_self n names))]

theorem loadAll_schemas {names : List String} (hnodup : names.Nodup)
    (hres : ∀ n ∈ names, Engine.fileKey n = n) (h : loadAll order env names db = some db') :
    db'.schemas = if "_schemas" ∈ names then
      (Engine.logFrames db.storage "_schemas").foldl loadSchemaFrame db.schemas else db.schemas := by
  induction names generalizing db with
  | nil => cases h; rfl
  | cons n names ih =>
      rw [loadAll_cons] at h
      obtain ⟨db₁, h₁, h⟩ := Option.bind_eq_some.mp h
      rw [ih (List.nodup_cons.mp hnodup).2 (fun m hm => hres m (List.mem_cons_of_mem n hm)) h]
      by_cases hn : n = "_schemas"
      · subst hn
        rw [if_neg (List.nodup_cons.mp hnodup).1, if_pos (List.mem_cons_self _ _),
          loadCollection_schemas h₁]
      · rw [loadCollection_schemas_ne h₁ hn,
          loadCollection_frames h₁ (Ne.symm hn) Engine.fileKey_schemas (hres n (List.mem_cons_self n names))]
        simp only [List.mem_cons, Ne.symm hn, false_or]

theorem loadAll_authCache {names : List String} (hnodup : names.Nodup)
    (hres : ∀ n ∈ names, Engine.fileKey n = n) (h : loadAll order env names db = some db') :
    if "_auth" ∈ names then
      (collectionArray order "_auth" (Engine.logFrames db.storage "_auth")).child.foldlM loadCredential
        db.authCache = some db'.authCache
    else db'.authCache = db.authCache := by
  induction names generalizing db with
  | nil => cases h; rfl
  | cons n names ih =>
      rw [loadAll_cons] at h
      obtain ⟨db₁, h₁, h⟩ := Option.bind_eq_some.mp h
      have ih := ih (List.nodup_cons.mp hnodup).2 (fun m hm => hres m (List.mem_cons_of_mem n hm)) h
      by_cases hn : n = "_auth"
      · subst hn
        rw [if_neg (List.nodup_cons.mp hnodup).1] at ih
        rw [if_pos (List.mem_cons_self _ _), ih]
        exact loadCollection_auth h₁
      · rw [loadCollection_authCache_ne h₁ hn,
          loadCollection_frames h₁ (Ne.symm hn) Engine.fileKey_auth (hres n (List.mem_cons_self n names))] at ih
        simpa only [List.mem_cons, Ne.symm hn, false_or] using ih

/-!
## When loading succeeds
-/

theorem foldlM_isSome {α β : Type} {f : β -> α -> Option β} {l : List α}
    (h : ∀ b, ∀ a ∈ l, (f b a).isSome) (b : β) : (l.foldlM f b).isSome := by
  induction l generalizing b with
  | nil => rfl
  | cons a l ih =>
      obtain ⟨b', hb'⟩ := Option.isSome_iff_exists.mp (h b a (List.mem_cons_self a l))
      rw [List.foldlM_cons, hb']
      exact ih (fun b a ha => h b a (List.mem_cons_of_mem _ ha)) b'

def Loadable (order : String -> List Item -> List Item) (disk : StrMap (List Frame))
    (name : String) : Prop :=
  (name = "_indexes" -> ∀ fields, ((Engine.logFrames disk name).foldlM loadIndexFrame fields).isSome) ∧
  (name = "_auth" -> ∀ cache,
    ((collectionArray order name (Engine.logFrames disk name)).child.foldlM loadCredential cache).isSome)

theorem loadCollection_isSome (h : Loadable order db.storage name) :
    (loadCollection order env db name).isSome := by
  unfold loadCollection
  split
  · rename_i hi
    exact Option.isSome_map'.trans (h.1 hi _)
  split
  · rfl
  · simp only [Option.isSome_map']
    split
    · rename_i hauth
      exact Option.isSome_map'.trans (h.2 hauth _)
    · rfl

theorem loadAll_isSome {names : List String} (hnodup : names.Nodup)
    (hres : ∀ n ∈ names, Engine.fileKey n = n)
    (h : ∀ n ∈ names, Loadable order db.storage n) : (loadAll order env names db).isSome := by
  induction names generalizing db with
  | nil => rfl
  | cons n names ih =>
      obtain ⟨db₁, h₁⟩ := Option.isSome_iff_exists.mp
        (loadCollection_isSome (h n (List.mem_cons_self n names)) : (loadCollection order env db n).isSome)
      rw [loadAll_cons, h₁, Option.some_bind]
      refine ih (List.nodup_cons.mp hnodup).2 (fun m hm => hres m (List.mem_cons_of_mem n hm)) fun m hm => ?_
      have hne : m ≠ n := fun e => (List.nodup_cons.mp hnodup).1 (e ▸ hm)
      rw [Loadable, loadCollection_frames h₁ hne (hres m (List.mem_cons_of_mem n hm))
        (hres n (List.mem_cons_self n names))]
      exact h m (List.mem_cons_of_mem n hm)

theorem construct_eq {disk : StrMap (List Frame)} {names : List String} {db₁ : Db}
    (h : loadAll order env names (onDisk disk) = some db₁) :
    construct order env disk names =
      some (if db₁.authCache.entries.isEmpty then (db₁.createUser env "root" "admin").2 else db₁) := by
  simp only [construct, h, Option.bind_eq_bind, Option.some_bind]
  split <;> rfl

theorem construct_other {disk : StrMap (List Frame)} {names : List String} {db₁ : Db}
    (h : loadAll order env names (onDisk disk) = some db₁) (hc : c ≠ "_auth") :
    exists db, construct order env disk names = some db ∧
      db.memoryStore.lookup c = db₁.memoryStore.lookup c ∧ db.storage.get c = db₁.storage.get c := by
  refine ⟨_, construct_eq h, ?_⟩
  split
  · have ho := createUser_other env db₁ "root" "admin" hc
    exact ⟨ho.1, ho.2.2⟩
  · exact ⟨rfl, rfl⟩

end Db

/-- Four one-file directories, whatever the environment.  load_all skips a `_schemas` frame whose
`collection` member is a number and a document frame whose `_id` is a number, as it skips frames
that do not parse; but it reads an `_indexes` element whose `collection` is a number, and an
`_auth` document whose `role` is a number, through their `NULL` `valuestring`s, and the
construction does not complete. -/
theorem construct_reads_null_strings (env : Env) :
    (Db.construct (fun _ l => l) env
      (AList.insert "_schemas" [some (createObject.addNumberToObject "collection" 1)] ∅)
      ["_schemas"]).isSome ∧
    (Db.construct (fun _ l => l) env
      (AList.insert "c" [some (createObject.addNumberToObject "_id" 1)] ∅) ["c"]).isSome ∧
    Db.construct (fun _ l => l) env
      (AList.insert "_indexes" [some ⟨.array, none,
        [(createObject.addNumberToObject "collection" 1).addStringToObject "field" "f"]⟩] ∅)
      ["_indexes"] = none ∧
    Db.construct (fun _ l => l) env
      (AList.insert "_auth" [some (((createObject.addStringToObject "_id" "a").addStringToObject
        "key_hash" "h").addNumberToObject "role" 1)] ∅) ["_auth"] = none :=
  ⟨rfl, rfl, rfl, rfl⟩

end AevumDb
