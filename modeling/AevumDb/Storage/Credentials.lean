import AevumDb.Storage.Reopen

/-!
# Credentials across a restart

create_user caches a key's role and appends a credential document with a new
`_id` to `_auth`; load_all rebuilds the cache from the documents `_auth`
replays to, in the order of its `temp_map`.  The cache and the log agree
(`AuthLogged`) along every run whose appends succeed, in which a key hash is
provisioned again only with the role it has, every generated `_id` is new in
`_auth`, and no other call writes the file `_auth.aev`: a restart then gives
every key the role it had, whatever the orders.  A key provisioned again with
another role comes back with the role of whichever of its documents the
`temp_map` yields last (`restart_changes_roles`).
-/

namespace AevumDb

open Item Recovery

def credentialFrame (env : Env) (hashed role : String) : Frame :=
  some (reparse (Db.userDoc env hashed role))

theorem credentialFrame_inj {env env' : Env} {hashed hashed' role role' : String}
    (h : credentialFrame env hashed role = credentialFrame env' hashed' role') :
    hashed = hashed' ∧ role = role' :=
  ⟨Option.some.inj (congrArg (fun f : Frame => (f.bind (·.getObjectItem "key_hash")).bind valuestring) h),
    Option.some.inj (congrArg (fun f : Frame => (f.bind (·.getObjectItem "role")).bind valuestring) h)⟩

theorem loadCredential_credentialFrame {d : Item} {env : Env} {hashed role : String}
    (h : some d = credentialFrame env hashed role) (cache : StrMap UserRole) :
    loadCredential cache d = some (cache.insert hashed (parseRole role)) := by
  obtain rfl := Option.some.inj h
  rfl

/-!
## The cache and the log
-/

structure AuthLogged (db : Db) : Prop where
  frames : ∀ f ∈ Engine.logFrames db.storage "_auth", exists env hashed role, f = credentialFrame env hashed role
  ids : ((Engine.logFrames db.storage "_auth").map fun f => f.bind docId).Nodup
  cached : ∀ hashed r, db.authCache.lookup hashed = some r ->
    exists env role, credentialFrame env hashed role ∈ Engine.logFrames db.storage "_auth" ∧ parseRole role = r
  consistent : ∀ env hashed role, credentialFrame env hashed role ∈ Engine.logFrames db.storage "_auth" ->
    db.authCache.lookup hashed = some (parseRole role)

def provisioningCalls : Db -> Env -> Call -> Prop
  | db, env, .createUser key role =>
      env.ioOk = true ∧ (∀ r, db.authCache.lookup (hashKey key) = some r -> r = parseRole role) ∧
      ∀ f ∈ Engine.logFrames db.storage "_auth", f.bind docId ≠ some (IdGenerator.generate env.p1 env.p2)
  | _, _, .insert coll _ => OutsideMetadata coll
  | _, _, .upsert coll _ _ => OutsideMetadata coll
  | _, _, .update coll _ _ => OutsideMetadata coll
  | _, _, .remove coll _ => Engine.fileKey coll ≠ "_auth"
  | _, _, .triggerCompaction coll => Engine.fileKey coll ≠ "_auth"
  | _, _, _ => True

namespace AuthLogged

variable {db db' : Db}

theorem congr (h : AuthLogged db) (hs : Engine.logFrames db'.storage "_auth" = Engine.logFrames db.storage "_auth")
    (ha : db'.authCache = db.authCache) : AuthLogged db' where
  frames := by rw [hs]; exact h.frames
  ids := by rw [hs]; exact h.ids
  cached := by rw [hs, ha]; exact h.cached
  consistent := by rw [hs, ha]; exact h.consistent

theorem onDisk_empty : AuthLogged (Db.onDisk ∅) where
  frames _ h := nomatch h
  ids := List.nodup_nil
  cached _ _ h := nomatch h
  consistent _ _ _ h := nomatch h

theorem createUser (h : AuthLogged db) {env : Env} {key role : String} (hok : env.ioOk = true)
    (hrole : ∀ r, db.authCache.lookup (hashKey key) = some r -> r = parseRole role)
    (hid : ∀ f ∈ Engine.logFrames db.storage "_auth", f.bind docId ≠ some (IdGenerator.generate env.p1 env.p2)) :
    AuthLogged (db.createUser env key role).2 := by
  have hs : Engine.logFrames (db.createUser env key role).2.storage "_auth" =
      Engine.logFrames db.storage "_auth" ++ [credentialFrame env (hashKey key) role] := by
    rw [Db.storage_createUser, hok, Engine.logFrames_append_self]
    rfl
  have ha := Db.authCache_createUser env db key role
  refine ⟨?_, ?_, fun hashed r hr => ?_, fun env' hashed role' hf => ?_⟩ <;> rw [hs] at *
  · intro f hf
    rcases List.mem_append.mp hf with hf | hf
    · exact h.frames f hf
    · exact ⟨env, _, role, List.mem_singleton.mp hf⟩
  · rw [List.map_append, List.nodup_append]
    refine ⟨h.ids, List.nodup_singleton _, fun x hx hy => ?_⟩
    obtain ⟨f, hf, rfl⟩ := List.mem_map.mp hx
    simp only [List.map_cons, List.map_nil, List.mem_singleton] at hy
    exact hid f hf hy
  · rw [ha] at hr
    by_cases hk : hashed = hashKey key
    · subst hk
      rw [AList.lookup_insert] at hr
      exact ⟨env, role, List.mem_append_right _ (List.mem_singleton_self _), Option.some.inj hr⟩
    · rw [AList.lookup_insert_ne hk] at hr
      obtain ⟨env', role', hf, hr⟩ := h.cached hashed r hr
      exact ⟨env', role', List.mem_append_left _ hf, hr⟩
  · rw [ha]
    rcases List.mem_append.mp hf with hf | hf
    · have hold := h.consistent env' hashed role' hf
      by_cases hk : hashed = hashKey key
      · subst hk
        rw [AList.lookup_insert, hrole _ hold]
      · rw [AList.lookup_insert_ne hk, hold]
    · obtain ⟨rfl, rfl⟩ := credentialFrame_inj (List.mem_singleton.mp hf)
      exact AList.lookup_insert _

theorem keepsMetadata_of_provisioningCalls {env : Env} {c : Call}
    (h : provisioningCalls db env c) : keepsMetadata db env c := by
  cases c with
  | insert | upsert | update => exact h
  | _ => trivial

theorem call (h : AuthLogged db) (hne : db.authCache.entries ≠ []) {E : PredicateEngine}
    {env : Env} {c : Call} {r : Bool} (hallow : provisioningCalls db env c)
    (hstep : db.call E env c = some (r, db')) : AuthLogged db' ∧ db'.authCache.entries ≠ [] := by
  by_cases hc : exists key role, c = .createUser key role
  · obtain ⟨key, role, rfl⟩ := hc
    change some (db.createUser env key role) = some (r, db') at hstep
    have hdb : db' = (db.createUser env key role).2 :=
      (congrArg Prod.snd (Option.some.inj hstep)).symm
    subst hdb
    refine ⟨h.createUser hallow.1 hallow.2.1 hallow.2.2, ?_⟩
    rw [Db.authCache_createUser]
    exact List.cons_ne_nil _ _
  · have hs := Db.call_sameOutside (fun key role e => hc ⟨key, role, e⟩) hstep
    have ht : Engine.fileKey c.target ≠ "_auth" := by
      cases c with
      | insert | upsert | update => exact hallow.1
      | remove | triggerCompaction => exact hallow
      | createIndex => simp [Call.target]
      | setSchema => simp [Call.target]
      | createUser key role => exact absurd ⟨key, role, rfl⟩ hc
    rw [← hs.authCache] at hne
    exact ⟨h.congr (hs.frames (by rw [Engine.fileKey_auth]; exact ht.symm)) hs.authCache, hne⟩

end AuthLogged

inductive Provisioned (E : PredicateEngine) : Db -> Prop
  | fresh (env : Env) : env.ioOk = true -> Provisioned E (Db.fresh env)
  | call (env : Env) (c : Call) {db db' : Db} {r : Bool} :
      Provisioned E db -> provisioningCalls db env c -> db.call E env c = some (r, db') ->
      Provisioned E db'

theorem Provisioned.reachable {E : PredicateEngine} {db : Db} (h : Provisioned E db) :
    Reachable E provisioningCalls db := by
  induction h with
  | fresh env _ => exact .fresh env
  | call env c _ hallow hstep ih => exact .call env c ih hallow hstep

theorem authLogged_of_provisioned {E : PredicateEngine} {db : Db}
    (h : Provisioned E db) : AuthLogged db ∧ db.authCache.entries ≠ [] := by
  induction h with
  | fresh env hok =>
      refine ⟨AuthLogged.onDisk_empty.createUser hok (fun _ h => nomatch h) (fun _ h => nomatch h), ?_⟩
      rw [Db.fresh, Db.authCache_createUser]
      exact List.cons_ne_nil _ _
  | call _ _ _ hallow hstep ih => exact ih.1.call ih.2 hallow hstep

/-!
## What load_all rebuilds
-/

theorem replay_lookup_of_fresh {log : List Frame}
    (hlive : ∀ f ∈ log, exists d u, f = some d ∧ d.docId = some u ∧ isDeleted d = false)
    (hids : (log.map fun f => f.bind docId).Nodup) {d : Item} {u : String}
    (hd : some d ∈ log) (hu : d.docId = some u) : (replay log).lookup u = some d := by
  induction log using List.reverseRecOn with
  | nil => cases hd
  | append_singleton log f ih =>
      obtain ⟨d', u', rfl, hu', hdel'⟩ := hlive _ (List.mem_append_right _ (List.mem_singleton_self _))
      have hstep : replay (log ++ [some d']) = (replay log).insert u' d' := by
        rw [replay_append]
        simp only [replayFrame, hu', show isTrue (d'.getObjectItem "_deleted") = false from hdel',
          Bool.false_eq_true, if_false]
      rw [List.map_append, List.nodup_append] at hids
      rw [hstep]
      rcases List.mem_append.mp hd with hd | hd
      · have hne : u ≠ u' := fun e => hids.2.2 (List.mem_map_of_mem (fun f => f.bind docId) hd)
          (by simp [hu, hu', e])
        rw [AList.lookup_insert_ne hne]
        exact ih (fun f hf => hlive f (List.mem_append_left _ hf)) hids.1 hd
      · obtain rfl := Option.some.inj (List.mem_singleton.mp hd)
        obtain rfl := Option.some.inj (hu.symm.trans hu')
        exact AList.lookup_insert _

theorem foldlM_loadCredential {C : StrMap UserRole} {ds : List Item}
    (hds : ∀ d ∈ ds, exists env hashed role,
      some d = credentialFrame env hashed role ∧ C.lookup hashed = some (parseRole role))
    (cache : StrMap UserRole) :
    exists cache', ds.foldlM loadCredential cache = some cache' ∧ ∀ hashed,
      cache'.lookup hashed = C.lookup hashed ∨
        (cache'.lookup hashed = cache.lookup hashed ∧
          ∀ d ∈ ds, ∀ env role, some d ≠ credentialFrame env hashed role) := by
  induction ds generalizing cache with
  | nil => exact ⟨cache, rfl, fun _ => Or.inr ⟨rfl, fun _ h => nomatch h⟩⟩
  | cons d ds ih =>
      obtain ⟨env, h₀, role, hd, hC⟩ := hds d (List.mem_cons_self _ _)
      obtain ⟨cache', hfold, hlook⟩ :=
        ih (fun d hd => hds d (List.mem_cons_of_mem _ hd)) (cache.insert h₀ (parseRole role))
      refine ⟨cache', by rw [List.foldlM_cons, loadCredential_credentialFrame hd]; exact hfold,
        fun hashed => ?_⟩
      rcases hlook hashed with heq | ⟨heq, hnone⟩
      · exact Or.inl heq
      · by_cases hk : hashed = h₀
        · subst hk
          rw [heq, AList.lookup_insert, hC]
          exact Or.inl rfl
        · refine Or.inr ⟨by rw [heq, AList.lookup_insert_ne hk], fun d' hd' env' role' he => ?_⟩
          rcases List.mem_cons.mp hd' with rfl | hd'
          · exact hk (credentialFrame_inj (hd.symm.trans he)).1.symm
          · exact hnone d' hd' env' role' he

/-!
## Restarting
-/

theorem mem_authArray_iff {db : Db} (h : AuthLogged db) {order : String -> List Item -> List Item}
    (horder : ∀ n l, (order n l).Perm l) {env : Env} {hashed role : String} :
    reparse (Db.userDoc env hashed role) ∈
        (collectionArray order "_auth" (Engine.logFrames db.storage "_auth")).child ↔
      credentialFrame env hashed role ∈ Engine.logFrames db.storage "_auth" := by
  refine ⟨fun hd => mem_replay_values ((horder _ _).subset hd), fun hf => (horder _ _).symm.subset ?_⟩
  have hlookup := replay_lookup_of_fresh (fun f hf => ?_) h.ids hf rfl
  · exact List.mem_map_of_mem (·.2) (AList.mem_lookup_iff.mp hlookup)
  · obtain ⟨env, hashed, role, rfl⟩ := h.frames f hf
    exact ⟨_, _, rfl, rfl, rfl⟩

theorem loadedCache_lookup {db : Db} (h : AuthLogged db) {order : String -> List Item -> List Item}
    (horder : ∀ n l, (order n l).Perm l) :
    exists cache, (collectionArray order "_auth" (Engine.logFrames db.storage "_auth")).child.foldlM
        loadCredential ∅ = some cache ∧ ∀ hashed, cache.lookup hashed = db.authCache.lookup hashed := by
  obtain ⟨cache, hfold, hlook⟩ := foldlM_loadCredential (C := db.authCache) (fun d hd => by
    obtain ⟨env, hashed, role, hf⟩ := h.frames _ (mem_replay_values ((horder _ _).subset hd))
    exact ⟨env, hashed, role, hf, h.consistent env hashed role (hf ▸ mem_replay_values
      ((horder _ _).subset hd))⟩) ∅
  refine ⟨cache, hfold, fun hashed => ?_⟩
  rcases hlook hashed with heq | ⟨heq, hnone⟩
  · exact heq
  · rw [heq]
    cases hr : db.authCache.lookup hashed with
    | none => rfl
    | some r =>
        obtain ⟨env, role, hf, -⟩ := h.cached hashed r hr
        exact absurd rfl (hnone _ ((mem_authArray_iff h horder).mpr hf) env role)

theorem restart_keeps_roles {E : PredicateEngine} {db : Db} (h : Provisioned E db) :
    ∀ (order : String -> List Item -> List Item), (∀ n l, (order n l).Perm l) ->
    ∀ names : List String, names.Perm (Engine.listing db.storage) -> ∀ env : Env,
    exists db₂, Db.construct order env db.storage names = some db₂ ∧
      ∀ key, db₂.authenticate key = db.authenticate key := by
  intro order horder names hnames env
  obtain ⟨hlog, hne⟩ := authLogged_of_provisioned h
  have hnodup : names.Nodup := hnames.nodup_iff.mpr (Engine.nodup_listing _)
  have hres : ∀ n ∈ names, Engine.fileKey n = n :=
    fun n hn => Engine.fileKey_of_mem_listing _ (hnames.subset hn)
  have hm := metaReadable_of_keepsMetadata
    (fun _ _ _ hc => AuthLogged.keepsMetadata_of_provisioningCalls hc) h.reachable
  obtain ⟨db₁, h₁⟩ := loadAll_of_metaReadable hm horder hnodup hres env
  obtain ⟨⟨hashed, r⟩, hentry⟩ := List.exists_mem_of_ne_nil _ hne
  have hr : db.authCache.lookup hashed = some r := AList.mem_lookup_iff.mpr hentry
  -- a cached key is logged, so `_auth.aev` is listed
  have hmem : "_auth" ∈ names := by
    refine hnames.mem_iff.mpr ((Engine.mem_listing _).mpr ⟨AList.lookup_isSome.mp ?_, by decide, by decide⟩)
    obtain ⟨env', role, hf, -⟩ := hlog.cached hashed r hr
    cases hl : db.storage.lookup "_auth" with
    | none => rw [Engine.logFrames, Engine.fileKey_auth, StrMap.get, hl] at hf; cases hf
    | some _ => rfl
  have hcache := Db.loadAll_authCache hnodup hres h₁
  rw [if_pos hmem] at hcache
  obtain ⟨cache, hfold, hlook⟩ := loadedCache_lookup hlog horder
  obtain rfl : cache = db₁.authCache := Option.some.inj (hfold.symm.trans hcache)
  have hloaded : db₁.authCache.entries.isEmpty = false := by
    cases he : db₁.authCache.entries with
    | nil =>
        have := (hlook hashed).trans hr
        simp [AList.lookup, he] at this
    | cons _ _ => rfl
  refine ⟨db₁, by rw [Db.construct_eq h₁, hloaded]; rfl, fun key => ?_⟩
  unfold Db.authenticate
  rw [hlook]

def notTargetingAuth : Db -> Env -> Call -> Prop
  | _, _, .insert coll _ => coll ≠ "_auth"
  | _, _, .upsert coll _ _ => coll ≠ "_auth"
  | _, _, .update coll _ _ => coll ≠ "_auth"
  | _, _, .remove coll _ => coll ≠ "_auth"
  | _, _, .triggerCompaction coll => coll ≠ "_auth"
  | _, _, _ => True

/-- Three runs that leave `_auth` to create_user: a key provisioned as admin and then as
read_only comes back as admin; a credential drawn with the `_id` of root's replaces it in the
replay, so root comes back unknown; a document without string members inserted into
`_indexes` makes the construction fail. -/
theorem restart_changes_roles :
    (exists db, Reachable PredicateEngine.unchanged notTargetingAuth db ∧
      db.authenticate "k" = .readOnly ∧
      exists db₂, Db.construct (fun _ l => l) ⟨0, 0, 0, true⟩ db.storage (Engine.listing db.storage) = some db₂ ∧
        db₂.authenticate "k" = .admin) ∧
    (exists db, Reachable PredicateEngine.unchanged notTargetingAuth db ∧
      db.authenticate "root" = .admin ∧
      exists db₂, Db.construct (fun _ l => l) ⟨0, 0, 0, true⟩ db.storage (Engine.listing db.storage) = some db₂ ∧
        db₂.authenticate "root" = .none) ∧
    (exists db, Reachable PredicateEngine.unchanged notTargetingAuth db ∧
      Db.construct (fun _ l => l) ⟨0, 0, 0, true⟩ db.storage (Engine.listing db.storage) = none) :=
  ⟨⟨_, .call ⟨2, 2, 0, true⟩ (.createUser "k" "read_only")
      (.call ⟨1, 1, 0, true⟩ (.createUser "k" "admin") (.fresh ⟨0, 0, 0, true⟩) trivial rfl)
      trivial rfl, by decide, _, rfl, by decide⟩,
    ⟨_, .call ⟨0, 0, 0, true⟩ (.createUser "k" "admin") (.fresh ⟨0, 0, 0, true⟩) trivial rfl,
      by decide, _, rfl, by decide⟩,
    ⟨_, .call ⟨0, 0, 0, true⟩ (.insert "_indexes" ((createObject.addStringToObject "_id" "i"
      ).addItemToObject "x" ((createObject.addNumberToObject "collection" 1).addStringToObject
        "field" "f"))) (.fresh ⟨0, 0, 0, true⟩) (by decide : "_indexes" ≠ "_auth") rfl, rfl⟩⟩

end AevumDb
