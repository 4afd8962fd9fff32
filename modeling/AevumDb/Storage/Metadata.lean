import AevumDb.Storage.Restart

/-!
# The reserved logs along a run

Recovery builds strings from the members of `_auth` documents and `_indexes`
records without checking their types.  Along a run that writes documents into
neither file by insert, upsert or update, under any name that reaches it
(`./_auth` reaches `_auth.aev`), every frame of `_indexes` is a record list
`create_index` wrote and every `_auth` document is a credential `create_user`
wrote or a tombstone, so a later `Db::Db` loads both.
-/

namespace AevumDb

open Item Recovery

def CredentialReadable (x : Item) : Prop := ∀ cache, (loadCredential cache x).isSome

def IndexFrameReadable (f : Frame) : Prop := ∀ fields, (loadIndexFrame fields f).isSome

def OutsideMetadata (coll : String) : Prop :=
  Engine.fileKey coll ≠ "_auth" ∧ Engine.fileKey coll ≠ "_indexes"

def keepsMetadata : Db -> Env -> Call -> Prop
  | _, _, .insert coll _ => OutsideMetadata coll
  | _, _, .upsert coll _ _ => OutsideMetadata coll
  | _, _, .update coll _ _ => OutsideMetadata coll
  | _, _, _ => True

structure MetaReadable (db : Db) : Prop where
  indexes : ∀ f ∈ Engine.logFrames db.storage "_indexes", IndexFrameReadable f
  authLog : ∀ x, some x ∈ Engine.logFrames db.storage "_auth" -> CredentialReadable x
  authDocs : ∀ c, Engine.fileKey c = "_auth" ->
    ∀ d ∈ children (db.memoryStore.get c), CredentialReadable d
  noIndexes : ∀ c ∈ db.memoryStore, Engine.fileKey c ≠ "_indexes"

/-!
## Readable documents
-/

theorem credentialReadable_reparse {x : Item} (h : CredentialReadable x) :
    CredentialReadable (reparse x) := by
  obtain ⟨t, k, cs⟩ := x
  intro cache
  cases t with
  | object =>
      have h₁ := h cache
      unfold loadCredential at h₁ ⊢
      rw [getObjectItem_reparse_object (by decide), getObjectItem_reparse_object (by decide)]
      revert h₁
      cases getObjectItem ⟨.object, k, cs⟩ "key_hash" <;>
        cases getObjectItem ⟨.object, k, cs⟩ "role" <;> simp [valuestring_reparseMember]
  | array =>
      unfold loadCredential
      rw [getObjectItem_reparse_array, getObjectItem_reparse_array]
      rfl
  | _ => rfl

theorem credentialReadable_userDoc (env : Env) (hashed role : String) :
    CredentialReadable (Db.userDoc env hashed role) := fun _ => rfl

theorem credentialReadable_tombstone (u : String) : CredentialReadable (tombstone u) :=
  fun _ => rfl

theorem indexFrameReadable_records (fields : List (String × String)) :
    IndexFrameReadable (some (reparse (indexRecords fields))) := by
  intro fs
  simp only [loadIndexFrame, indexRecords, reparse_array, List.map_map]
  refine Db.foldlM_isSome (fun b r hr => ?_) fs
  obtain ⟨⟨c, f⟩, -, rfl⟩ := List.mem_map.mp hr
  rfl

theorem mem_replayFrame_values {m : TempMap} {f : Frame} {d : Item}
    (h : d ∈ (replayFrame m f).entries.map (·.2)) : d ∈ m.entries.map (·.2) ∨ f = some d := by
  have hkerase : ∀ u, d ∈ (m.entries.kerase u).map (·.2) -> d ∈ m.entries.map (·.2) :=
    fun u hd => List.map_subset _ (List.kerase_sublist _ _).subset hd
  rcases f with _ | item
  · exact Or.inl h
  · simp only [replayFrame] at h
    split at h
    · exact Or.inl h
    · split at h
      · exact Or.inl (hkerase _ h)
      · rcases List.mem_cons.mp h with rfl | hd
        · exact Or.inr rfl
        · exact Or.inl (hkerase _ hd)

theorem mem_replay_values {log : List Frame} {d : Item}
    (h : d ∈ (replay log).entries.map (·.2)) : some d ∈ log := by
  suffices ∀ (m : TempMap) (log : List Frame), d ∈ (log.foldl replayFrame m).entries.map (·.2) ->
      d ∈ m.entries.map (·.2) ∨ some d ∈ log from
    (this ∅ log h).resolve_left (by simp)
  intro m log
  induction log generalizing m with
  | nil => exact Or.inl
  | cons f log ih =>
      intro hd
      rcases ih _ hd with hd | hd
      · rcases mem_replayFrame_values hd with hd | rfl
        · exact Or.inl hd
        · exact Or.inr (List.mem_cons_self _ _)
      · exact Or.inr (List.mem_cons_of_mem _ hd)

/-!
## Every call keeps the reserved logs readable
-/

namespace MetaReadable

variable {db db' : Db}

theorem congr (h : MetaReadable db)
    (hi : Engine.logFrames db'.storage "_indexes" = Engine.logFrames db.storage "_indexes")
    (ha : Engine.logFrames db'.storage "_auth" = Engine.logFrames db.storage "_auth")
    (hm : ∀ c, db'.memoryStore.lookup c = db.memoryStore.lookup c) : MetaReadable db' where
  indexes := by rw [hi]; exact h.indexes
  authLog := by rw [ha]; exact h.authLog
  authDocs c hc := by rw [StrMap.get, hm]; exact h.authDocs c hc
  noIndexes c hmem := h.noIndexes c (AList.lookup_isSome.mp ((hm c) ▸ AList.lookup_isSome.mpr hmem))

theorem of_sameOutside (h : MetaReadable db) {coll : String} (hs : Db.SameOutside db db' coll)
    (hout : OutsideMetadata coll) : MetaReadable db' where
  indexes := by rw [hs.frames (by rw [Engine.fileKey_indexes]; exact hout.2.symm)]; exact h.indexes
  authLog := by rw [hs.frames (by rw [Engine.fileKey_auth]; exact hout.1.symm)]; exact h.authLog
  authDocs c hc := by
    have hne : c ≠ coll := fun e => hout.1 (e ▸ hc)
    rw [StrMap.get, hs.memory c hne]
    exact h.authDocs c hc
  noIndexes c hmem := by
    by_cases hc : c = coll
    · exact hc ▸ hout.2
    · exact h.noIndexes c (AList.lookup_isSome.mp ((hs.memory c hc) ▸ AList.lookup_isSome.mpr hmem))

end MetaReadable

namespace Db

variable {E : PredicateEngine} {env : Env} {db db' : Db} {coll : String} {r : Bool}

theorem metaReadable_onDisk_empty : MetaReadable (onDisk ∅) where
  indexes _ h := nomatch h
  authLog _ h := nomatch h
  authDocs _ _ _ h := nomatch h
  noIndexes _ h := nomatch h

theorem mem_frames_append {s : StrMap (List Frame)} {name : String} {x : Item} {payload : Item}
    {ok : Bool} (h : some x ∈ Engine.logFrames (Engine.append s coll payload ok) name) :
    some x ∈ Engine.logFrames s name ∨ Engine.fileKey coll = Engine.fileKey name ∧ x = reparse payload := by
  by_cases hk : Engine.fileKey name = Engine.fileKey coll
  · cases ok
    · exact Or.inl h
    · rw [Engine.logFrames, hk, ← Engine.logFrames, Engine.logFrames_append_self] at h
      rcases List.mem_append.mp h with hx | hx
      · exact Or.inl (by rwa [Engine.logFrames, hk])
      · exact Or.inr ⟨hk.symm, Option.some.inj (List.mem_singleton.mp hx)⟩
  · exact Or.inl (by rwa [Engine.logFrames_append_ne _ _ _ hk] at h)

theorem metaReadable_removeOne (h : MetaReadable db) (hmem : coll ∈ db.memoryStore) (uuid : String) :
    MetaReadable (db.removeOne env coll uuid) := by
  have hi : Engine.fileKey coll ≠ "_indexes" := h.noIndexes coll hmem
  rw [removeOne_eq]
  cases (db.idIndexes.get coll).lookup uuid with
  | none => exact h.congr rfl rfl fun _ => rfl
  | some target =>
      dsimp only
      refine ⟨?_, fun x hx => ?_, fun c hc d hd => ?_, fun c hc => ?_⟩
      · rw [Engine.logFrames_append_ne _ _ _ (by rw [Engine.fileKey_indexes]; exact hi.symm)]
        exact h.indexes
      · rcases mem_frames_append hx with hx | ⟨-, rfl⟩
        · exact h.authLog x hx
        · exact credentialReadable_reparse (credentialReadable_tombstone uuid)
      · rw [StrMap.get_modify] at hd
        split at hd
        · subst c
          rw [children_detachItemViaPointer] at hd
          exact h.authDocs coll hc d (List.mem_of_mem_erase hd)
        · exact h.authDocs c hc d hd
      · rcases (StrMap.mem_modify _ _).mp hc with rfl | hc
        · exact hi
        · exact h.noIndexes c hc

theorem metaReadable_remove {query : Item} (h : MetaReadable db)
    (hstep : db.remove E env coll query = some (r, db')) : MetaReadable db' := by
  rcases remove_eq_some hstep with rfl | ⟨hmem, ids, db₁, ht, rfl⟩
  · exact h
  · obtain ⟨ii, ci, hdb₁, -, -⟩ := removeIndexed_snd db coll query
    have h₁ : MetaReadable db₁ := by
      rw [removeTargets_eq_some ht, hdb₁]
      exact h.congr rfl rfl fun _ => rfl
    have hmem₁ : coll ∈ db₁.memoryStore := by
      rw [removeTargets_eq_some ht, hdb₁]
      exact hmem
    clear ht hdb₁ hstep
    induction ids generalizing db₁ with
    | nil => exact h₁
    | cons uuid ids ih => exact ih _ (metaReadable_removeOne h₁ hmem₁ uuid) (mem_removeOne hmem₁ uuid)

theorem metaReadable_createUser (h : MetaReadable db) (env : Env) (key role : String) :
    MetaReadable (db.createUser env key role).2 := by
  have hdoc := credentialReadable_userDoc env (hashKey key) role
  refine ⟨?_, fun x hx => ?_, fun c hc d hd => ?_, fun c hc => ?_⟩
  · rw [storage_createUser, Engine.logFrames_append_ne _ _ _ (by simp)]
    exact h.indexes
  · rw [storage_createUser] at hx
    rcases mem_frames_append hx with hx | ⟨-, rfl⟩
    · exact h.authLog x hx
    · exact credentialReadable_reparse hdoc
  · rw [createUser_snd] at hd
    dsimp only at hd
    rw [StrMap.get_insert] at hd
    split at hd
    · subst c
      rcases mem_children_addItemToArray hd with hd | rfl
      · rw [children_getCollection] at hd
        exact h.authDocs "_auth" hc d hd
      · exact hdoc
    · rename_i hne
      rw [StrMap.get, memoryStore_lookup_getCollection, if_neg fun e => hne e.1] at hd
      exact h.authDocs c hc d hd
  · rw [createUser_snd] at hc
    dsimp only at hc
    rcases (AList.mem_insert _).mp hc with rfl | hc
    · simp
    · rw [← AList.lookup_isSome, memoryStore_lookup_getCollection] at hc
      split at hc
      · rename_i he
        rw [he.1]
        simp
      · exact h.noIndexes c (AList.lookup_isSome.mp hc)

theorem metaReadable_createIndex (h : MetaReadable db) (env : Env) (coll field : String) :
    MetaReadable (db.createIndex env coll field).2 := by
  rw [createIndex_snd]
  split
  · exact h
  · refine ⟨?_, ?_, h.authDocs, h.noIndexes⟩
    · cases env.ioOk
      · exact h.indexes
      · simp only [Engine.logFrames_compact_self, List.map_cons, List.map_nil, List.mem_singleton]
        rintro f rfl
        exact indexFrameReadable_records _
    · rw [Engine.logFrames_compact_ne _ _ _ (by simp)]
      exact h.authLog

theorem metaReadable_compactCollection (h : MetaReadable db) (coll : String) (ok : Bool) :
    MetaReadable (db.compactCollection coll ok).2 := by
  rw [compactCollection_snd]
  cases hl : db.memoryStore.lookup coll with
  | none => exact h.congr rfl rfl fun _ => rfl
  | some arr =>
      have hmem : coll ∈ db.memoryStore := AList.lookup_isSome.mp (by rw [hl]; rfl)
      have hi : Engine.fileKey coll ≠ "_indexes" := h.noIndexes coll hmem
      refine ⟨?_, fun x hx => ?_, h.authDocs, h.noIndexes⟩
      · rw [Engine.logFrames_compact_ne _ _ _ (by rw [Engine.fileKey_indexes]; exact hi.symm)]
        exact h.indexes
      · by_cases ha : Engine.fileKey coll = "_auth"
        · cases ok
          · exact h.authLog x hx
          · rw [Engine.logFrames, Engine.fileKey_auth, ← ha, ← Engine.logFrames,
              Engine.logFrames_compact_self] at hx
            obtain ⟨d, hd, hdx⟩ := List.mem_map.mp hx
            cases Option.some.inj hdx
            refine credentialReadable_reparse (h.authDocs coll ha d ?_)
            rwa [StrMap.get_of_lookup _ hl]
        · rw [Engine.logFrames_compact_ne _ _ _ (by rw [Engine.fileKey_auth]; exact Ne.symm ha)] at hx
          exact h.authLog x hx

theorem metaReadable_call (h : MetaReadable db) {c : Call} (hallow : keepsMetadata db env c)
    (hstep : db.call E env c = some (r, db')) : MetaReadable db' := by
  cases c with
  | insert coll data => exact h.of_sameOutside (insert_sameOutside hstep) hallow
  | upsert coll query data => exact h.of_sameOutside (upsert_sameOutside hstep) hallow
  | update coll query data => exact h.of_sameOutside (update_sameOutside hstep) hallow
  | remove coll query => exact metaReadable_remove h hstep
  | createIndex coll field =>
      cases congrArg Prod.snd (Option.some.inj hstep)
      exact metaReadable_createIndex h env coll field
  | setSchema coll schema =>
      cases congrArg Prod.snd (Option.some.inj hstep)
      exact h.of_sameOutside (setSchema_sameOutside env db coll schema) ⟨by simp, by simp⟩
  | createUser key role =>
      cases congrArg Prod.snd (Option.some.inj hstep)
      exact metaReadable_createUser h env key role
  | triggerCompaction coll =>
      cases congrArg Prod.snd (Option.some.inj hstep)
      exact metaReadable_compactCollection h coll env.ioOk

end Db

theorem metaReadable_of_keepsMetadata {E : PredicateEngine} {allowed : Db -> Env -> Call -> Prop}
    (hallow : ∀ db env c, allowed db env c -> keepsMetadata db env c) {db : Db}
    (h : Reachable E allowed db) : MetaReadable db :=
  h.induct_on (fun env => Db.metaReadable_createUser Db.metaReadable_onDisk_empty env "root" "admin")
    fun _ _ _ _ _ hm hc hstep => Db.metaReadable_call hm (hallow _ _ _ hc) hstep

end AevumDb
