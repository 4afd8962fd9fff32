import AevumDb.Storage.Credentials

/-!
# The request handler

Handler::process parses a request, authenticates its `auth` key, checks the
role against Db::has_permission, and dispatches the action to the storage
controller; the reply is the object it builds, with `status` and `message`.
A payload is modelled after cJSON_Parse: empty, rejected, or the parsed item.

A request whose key authenticates below ADMIN changes no collection but the one
it names, and no cached role, schema or registered index
(`process_frame_of_not_admin`).  But nothing stops that collection from being
`_auth`: a READ_WRITE key may insert a credential document there, which the
next construction of a `Db` on the directory loads as a user
(`readWrite_provisions_admin`).

The model's `none` is a request that gets no reply: the handler, or the Db call
it makes, builds a `std::string` from a `NULL` pointer, which throws in the
worker thread.  Three requests of the bootstrapped admin do that
(`process_reads_null_strings`).
-/

namespace AevumDb

open Item

inductive Payload where
  | empty
  | malformed
  | parsed (req : Item)

namespace Handler

def reply (status msg : String) : Item :=
  (createObject.addStringToObject "status" status).addStringToObject "message" msg

def valueint (x : Item) : Int :=
  match x.type with
  | .number v => v.valueint
  | .true => 1
  | _ => 0

def dispatch (E : PredicateEngine) (env : Env) (db : Db) (role : UserRole)
    (action collection : String) (req : Item) : Option (Item × Bool × String × Db) :=
  let arg := req.getObjectItem
  if action = "create_user" then
    if role ≠ .admin then some (createObject, false, "Forbidden: User provisioning requires ADMIN role", db)
    else match arg "key", arg "role" with
      | some k, some r => do
          let key ← k.valuestring
          let userRole ← r.valuestring
          let p := db.createUser env key userRole
          some (createObject, p.1, if p.1 then "User created successfully" else "Failed to persist user",
            p.2)
      | _, _ => some (createObject, false, "Missing required arguments: 'key' or 'role'", db)
  else if action = "insert" then
    match arg "data" with
    | some data => (db.insert E env collection data).map fun p =>
        (createObject, p.1,
          if p.1 then "Document inserted" else "Insert failed (Schema violation or I/O error)", p.2)
    | none => some (createObject, false, "Missing payload: 'data'", db)
  else if action = "upsert" then
    match arg "query", arg "data" with
    | some q, some data => (db.upsert E env collection q data).map fun p =>
        (createObject, p.1, if p.1 then "Document upserted" else "Upsert failed", p.2)
    | _, _ => some (createObject, false, "Missing arguments: 'query' or 'data'", db)
  else if action = "find" then
    let l := ((arg "limit").map valueint).getD 0
    let s := ((arg "skip").map valueint).getD 0
    (db.find E collection (arg "query") (arg "sort") (arg "projection") l s).map fun p =>
      ((p.1.map (createObject.addItemToObject "data")).getD createObject, true, "", p.2)
  else if action = "count" then
    (db.count E collection (arg "query")).map fun n =>
      (createObject.addNumberToObject "count" n, true, "", db)
  else if action = "update" then
    match arg "query", arg "update" with
    | some q, some u => (db.update E env collection q u).map fun p =>
        (createObject, p.1,
          if p.1 then "Update committed" else "Update failed (Collection not found or I/O error)", p.2)
    | _, _ => some (createObject, false, "Missing arguments: 'query' or 'update'", db)
  else if action = "delete" then
    match arg "query" with
    | some q => (db.remove E env collection q).map fun p =>
        (createObject, p.1,
          if p.1 then "Documents deleted" else "No documents matched or collection not found", p.2)
    | none => some (createObject, false, "Missing argument: 'query'", db)
  else if action = "set_schema" then
    if role = .admin then
      match arg "schema" with
      | some schema =>
          let p := db.setSchema env collection schema
          some (createObject, p.1, if p.1 then "Schema applied" else "Failed to persist schema", p.2)
      | none => some (createObject, false, "Missing argument: 'schema'", db)
    else some (createObject, false, "Forbidden: Only ADMIN can modify schemas", db)
  else if action = "create_index" then
    if role = .admin then
      match (arg "field").bind valuestring with
      | some field =>
          let p := db.createIndex env collection field
          some (createObject, p.1,
            if p.1 then "Index created and backfilled" else "Index creation failed", p.2)
      | none => some (createObject, false, "Missing argument: 'field'", db)
    else some (createObject, false, "Forbidden: Only ADMIN can manage indexes", db)
  else if action = "compact" then
    if role = .admin then
      let p := db.triggerCompaction env collection
      some (createObject, p.1, if p.1 then "Compaction completed" else "Compaction failed", p.2)
    else some (createObject, false, "Forbidden: Maintenance commands are ADMIN-only", db)
  else some (createObject, false, "Unknown action opcode: " ++ action, db)

def process (E : PredicateEngine) (env : Env) (db : Db) : Payload -> Option (Item × Db)
  | .empty => some (reply "error" "Empty request payload", db)
  | .malformed => some (reply "error" "Invalid JSON syntax", db)
  | .parsed req =>
      let action := (req.stringMember "action").getD ""
      let role := db.authenticate ((req.stringMember "auth").getD "")
      if role = .none then some (reply "error" "Unauthorized: Invalid or missing API Key", db)
      else if action ≠ "create_user" ∧ hasPermission role action = false then
        some (reply "error" "Forbidden: Insufficient RBAC privileges", db)
      else if action = "exit" then some (reply "goodbye" "Closing connection", db)
      else
        let collection := (req.stringMember "collection").getD ""
        (dispatch E env db role action collection req).map fun r =>
          let resp := r.1.addStringToObject "status" (if r.2.1 then "ok" else "error")
          (if r.2.2.1 = "" then resp else resp.addStringToObject "message" r.2.2.1, r.2.2.2)

end Handler

/-!
## What a data command leaves alone
-/

structure SameRegistry (db db' : Db) : Prop where
  schemas : db'.schemas = db.schemas
  indexedFields : db'.indexedFields = db.indexedFields

namespace SameRegistry

theorem refl (db : Db) : SameRegistry db db := ⟨rfl, rfl⟩

theorem trans {db₁ db₂ db₃ : Db} (h₁ : SameRegistry db₁ db₂) (h₂ : SameRegistry db₂ db₃) :
    SameRegistry db₁ db₃ :=
  ⟨h₂.schemas.trans h₁.schemas, h₂.indexedFields.trans h₁.indexedFields⟩

end SameRegistry

namespace Db

variable {E : PredicateEngine} {env : Env} {db db' : Db} {coll : String} {r : Bool}

theorem sameRegistry_insert {data : Item} (h : db.insert E env coll data = some (r, db')) :
    SameRegistry db db' := by
  rcases insert_eq_some h with ⟨-, -, rfl⟩ | ⟨uuid, item, -, -, -, rfl⟩
  · exact .refl _
  · exact ⟨schemas_getCollection db coll, indexedFields_getCollection db coll⟩

theorem sameRegistry_update {query data : Item} (h : db.update E env coll query data = some (r, db')) :
    SameRegistry db db' := by
  rcases update_eq_some h with ⟨-, -, rfl⟩ | ⟨arr, -, -, rfl⟩
  · exact .refl _
  · rw [compactCollection_snd, rebuildIndex_eq]
    exact ⟨rfl, rfl⟩

theorem sameRegistry_upsert {query data : Item} (h : db.upsert E env coll query data = some (r, db')) :
    SameRegistry db db' := by
  obtain ⟨n, -, ⟨-, hup⟩ | ⟨-, hins⟩⟩ := upsert_eq_some h
  · exact sameRegistry_update hup
  · exact sameRegistry_insert hins

theorem sameRegistry_foldl_removeOne (db : Db) (coll : String) (ids : List String) :
    SameRegistry db (ids.foldl (fun db uuid => db.removeOne env coll uuid) db) := by
  induction ids generalizing db with
  | nil => exact .refl db
  | cons uuid ids ih =>
      have h₁ : SameRegistry db (db.removeOne env coll uuid) := by
        rw [removeOne_eq]; split <;> exact ⟨rfl, rfl⟩
      exact h₁.trans (ih _)

theorem sameRegistry_remove {query : Item} (h : db.remove E env coll query = some (r, db')) :
    SameRegistry db db' := by
  rcases remove_eq_some h with rfl | ⟨-, ids, db₁, ht, rfl⟩
  · exact .refl _
  · obtain ⟨ii, ci, hdb₁, -, -⟩ := removeIndexed_snd db coll query
    have h₁ : SameRegistry db db₁ := by
      rw [removeTargets_eq_some ht, hdb₁]; exact ⟨rfl, rfl⟩
    exact h₁.trans (sameRegistry_foldl_removeOne db₁ coll ids)

theorem findTier1_snd {query : Option Item} {simpleReq : Bool} {res : Item}
    (h : db.findTier1 coll query simpleReq = some (res, db')) :
    db' = { db with idIndexes := db.idIndexes.touch coll } := by
  unfold findTier1 at h
  dsimp only at h
  repeat' split at h
  all_goals first
    | (obtain ⟨-, rfl⟩ := Prod.mk.inj (Option.some.inj h); rfl)
    | exact Option.noConfusion h

theorem findTier2_snd {query : Option Item} {simpleReq : Bool} {limit skip : Int} {res : Item}
    (h : db.findTier2 coll query simpleReq limit skip = some (res, db')) :
    exists ci, db' = { db with customIndexes := ci } := by
  unfold findTier2 at h
  dsimp only at h
  repeat' split at h
  all_goals first
    | (obtain ⟨-, rfl⟩ := Prod.mk.inj (Option.some.inj h); exact ⟨_, rfl⟩)
    | exact Option.noConfusion h

theorem find_snd {query sort projection : Option Item} {limit skip : Int} {res : Option Item}
    (h : db.find E coll query sort projection limit skip = some (res, db')) :
    exists ii ci, db' = { db with idIndexes := ii, customIndexes := ci } := by
  unfold find at h
  split at h
  · cases h; exact ⟨_, _, rfl⟩
  · dsimp only at h
    split at h
    · rename_i h₁
      obtain ⟨-, rfl⟩ := Prod.mk.inj (Option.some.inj h)
      exact ⟨_, _, findTier1_snd h₁⟩
    · rename_i h₂
      obtain ⟨-, rfl⟩ := Prod.mk.inj (Option.some.inj h)
      obtain ⟨ci, rfl⟩ := findTier2_snd h₂
      exact ⟨_, _, rfl⟩
    · cases h; exact ⟨_, _, rfl⟩
    · cases h

end Db

namespace Handler

variable {E : PredicateEngine} {env : Env} {db db' : Db}

theorem dispatch_frame {role : UserRole} (hrole : role ≠ .admin) {action collection : String}
    {req resp : Item} {ok : Bool} {msg : String}
    (h : dispatch E env db role action collection req = some (resp, ok, msg, db')) :
    Db.SameOutside db db' collection ∧ SameRegistry db db' := by
  have keep : ∀ {y : Item × Bool × String × Db}, y.2.2.2 = db -> some y = some (resp, ok, msg, db') ->
      Db.SameOutside db db' collection ∧ SameRegistry db db' := by
    rintro y hy hx
    cases Option.some.inj hx
    subst hy
    exact ⟨.refl _ _, .refl _⟩
  have written : ∀ {o : Option (Bool × Db)} {f : Bool × Db -> Item × Bool × String × Db},
      (∀ p, (f p).2.2.2 = p.2) -> o.map f = some (resp, ok, msg, db') -> exists r, o = some (r, db') := by
    intro o f hf hx
    obtain ⟨⟨r, db₁⟩, hp, he⟩ := Option.map_eq_some'.mp hx
    obtain rfl : db₁ = db' := (hf (r, db₁)).symm.trans (congrArg (fun y => y.2.2.2) he)
    exact ⟨r, hp⟩
  delta dispatch at h
  dsimp only at h
  by_cases hcu : action = "create_user"
  · rw [if_pos hcu, if_pos hrole] at h
    exact keep rfl h
  rw [if_neg hcu] at h
  by_cases hins : action = "insert"
  · rw [if_pos hins] at h
    split at h
    · obtain ⟨r, hp⟩ := written (fun _ => rfl) h
      exact ⟨Db.insert_sameOutside hp, Db.sameRegistry_insert hp⟩
    · exact keep rfl h
  rw [if_neg hins] at h
  by_cases hups : action = "upsert"
  · rw [if_pos hups] at h
    split at h
    · obtain ⟨r, hp⟩ := written (fun _ => rfl) h
      exact ⟨Db.upsert_sameOutside hp, Db.sameRegistry_upsert hp⟩
    · exact keep rfl h
  rw [if_neg hups] at h
  by_cases hfind : action = "find"
  · rw [if_pos hfind] at h
    obtain ⟨⟨res, db₁⟩, hp, he⟩ := Option.map_eq_some'.mp h
    obtain rfl := congrArg (fun y => y.2.2.2) he
    obtain ⟨ii, ci, rfl⟩ := Db.find_snd hp
    exact ⟨⟨rfl, fun _ _ => rfl, fun _ _ => rfl⟩, ⟨rfl, rfl⟩⟩
  rw [if_neg hfind] at h
  by_cases hcount : action = "count"
  · rw [if_pos hcount] at h
    obtain ⟨n, -, he⟩ := Option.map_eq_some'.mp h
    exact keep rfl (congrArg some he)
  rw [if_neg hcount] at h
  by_cases hupd : action = "update"
  · rw [if_pos hupd] at h
    split at h
    · obtain ⟨r, hp⟩ := written (fun _ => rfl) h
      exact ⟨Db.update_sameOutside hp, Db.sameRegistry_update hp⟩
    · exact keep rfl h
  rw [if_neg hupd] at h
  by_cases hdel : action = "delete"
  · rw [if_pos hdel] at h
    split at h
    · obtain ⟨r, hp⟩ := written (fun _ => rfl) h
      exact ⟨Db.remove_sameOutside hp, Db.sameRegistry_remove hp⟩
    · exact keep rfl h
  rw [if_neg hdel] at h
  -- set_schema, create_index and compact check for ADMIN themselves
  by_cases hss : action = "set_schema"
  · rw [if_pos hss, if_neg hrole] at h
    exact keep rfl h
  rw [if_neg hss] at h
  by_cases hci : action = "create_index"
  · rw [if_pos hci, if_neg hrole] at h
    exact keep rfl h
  rw [if_neg hci] at h
  by_cases hcmp : action = "compact"
  · rw [if_pos hcmp, if_neg hrole] at h
    exact keep rfl h
  rw [if_neg hcmp] at h
  exact keep rfl h

theorem process_frame_of_not_admin {req resp : Item}
    (hrole : db.authenticate ((req.stringMember "auth").getD "") ≠ .admin)
    (h : process E env db (.parsed req) = some (resp, db')) :
    Db.SameOutside db db' ((req.stringMember "collection").getD "") ∧ SameRegistry db db' := by
  unfold process at h
  dsimp only at h
  have early : ∀ {msg : Item}, some (msg, db) = some (resp, db') ->
      Db.SameOutside db db' ((req.stringMember "collection").getD "") ∧ SameRegistry db db' := by
    intro msg hx
    obtain rfl := congrArg Prod.snd (Option.some.inj hx)
    exact ⟨.refl _ _, .refl _⟩
  by_cases hnone : db.authenticate ((req.stringMember "auth").getD "") = .none
  · rw [if_pos hnone] at h
    exact early h
  rw [if_neg hnone] at h
  by_cases hforbid : (req.stringMember "action").getD "" ≠ "create_user" ∧
      hasPermission (db.authenticate ((req.stringMember "auth").getD "")) ((req.stringMember "action").getD "") = false
  · rw [if_pos hforbid] at h
    exact early h
  rw [if_neg hforbid] at h
  by_cases hexit : (req.stringMember "action").getD "" = "exit"
  · rw [if_pos hexit] at h
    exact early h
  rw [if_neg hexit] at h
  obtain ⟨⟨resp₀, ok, msg, db₁⟩, hd, he⟩ := Option.map_eq_some'.mp h
  obtain rfl := congrArg Prod.snd he
  exact dispatch_frame hrole hd

end Handler

/-- A READ_WRITE key, provisioned by the bootstrapped admin, inserts into `_auth` a credential
document for the hash of a key no one provisioned. The request succeeds and leaves every role
as it was, but the `Db` constructed on the directory afterwards authenticates that key as
ADMIN. -/
theorem readWrite_provisions_admin :
    exists db₁ db₂ db₃ resp₁ resp₂,
      Handler.process PredicateEngine.unchanged ⟨1, 1, 0, true⟩ (Db.fresh ⟨0, 0, 0, true⟩)
        (.parsed ((((createObject.addStringToObject "action" "create_user").addStringToObject "auth"
          "root").addStringToObject "key" "k").addStringToObject "role" "read_write")) =
        some (resp₁, db₁) ∧
      Reachable PredicateEngine.unchanged anyCall db₁ ∧ db₁.authenticate "k" = .readWrite ∧
      Handler.process PredicateEngine.unchanged ⟨2, 2, 0, true⟩ db₁
        (.parsed ((((createObject.addStringToObject "action" "insert").addStringToObject "auth"
          "k").addStringToObject "collection" "_auth").addItemToObject "data"
          (((createObject.addStringToObject "_id" "m").addStringToObject "key_hash"
            (hashKey "mallory")).addStringToObject "role" "admin"))) =
        some (resp₂, db₂) ∧
      resp₂ = Handler.reply "ok" "Document inserted" ∧ db₂.authenticate "mallory" = .none ∧
      Db.construct (fun _ l => l) ⟨3, 3, 0, true⟩ db₂.storage db₂.storage.keys = some db₃ ∧
      db₃.authenticate "mallory" = .admin := by
  obtain ⟨resp₁, db₁, h₁⟩ : ∃ resp₁ db₁,
      Handler.process PredicateEngine.unchanged ⟨1, 1, 0, true⟩ (Db.fresh ⟨0, 0, 0, true⟩)
        (.parsed ((((createObject.addStringToObject "action" "create_user").addStringToObject "auth"
          "root").addStringToObject "key" "k").addStringToObject "role" "read_write")) =
        some (resp₁, db₁) := ⟨_, _, rfl⟩
  have hk : db₁.authenticate "k" = .readWrite := by cases h₁; decide
  obtain ⟨resp₂, db₂, h₂⟩ : ∃ resp₂ db₂, Handler.process PredicateEngine.unchanged ⟨2, 2, 0, true⟩ db₁
      (.parsed ((((createObject.addStringToObject "action" "insert").addStringToObject "auth"
        "k").addStringToObject "collection" "_auth").addItemToObject "data"
        (((createObject.addStringToObject "_id" "m").addStringToObject "key_hash"
          (hashKey "mallory")).addStringToObject "role" "admin"))) = some (resp₂, db₂) := by
    cases h₁; exact ⟨_, _, rfl⟩
  -- the READ_WRITE request leaves every cached role as it was
  have hcache : db₂.authCache = db₁.authCache :=
    (Handler.process_frame_of_not_admin (show db₁.authenticate "k" ≠ .admin by rw [hk]; decide) h₂).1.authCache
  have hnone : db₂.authenticate "mallory" = .none := by
    unfold Db.authenticate
    rw [hcache]
    cases h₁
    decide
  obtain ⟨db₃, h₃⟩ : ∃ db₃, Db.construct (fun _ l => l) ⟨3, 3, 0, true⟩ db₂.storage db₂.storage.keys =
      some db₃ := by
    cases h₁; cases h₂; exact ⟨_, rfl⟩
  have hadmin : db₃.authenticate "mallory" = .admin := by cases h₁; cases h₂; cases h₃; decide
  refine ⟨db₁, db₂, db₃, resp₁, resp₂, h₁, ?_, hk, h₂, ?_, hnone, h₃, hadmin⟩
  · cases h₁
    exact .call ⟨1, 1, 0, true⟩ (.createUser "k" "read_write") (.fresh _) trivial rfl
  · cases h₁; cases h₂; rfl

/-- Three requests of the bootstrapped admin that get no reply, for every engine and
environment: create_user whose `key` is a number (its `valuestring` is `NULL`), insert of a
document whose `_id` is a number (insert reads that `_id`'s `valuestring`), and find without a
query on a present collection (the full scan prints the absent query, and the engine is handed
a `NULL` string). -/
theorem process_reads_null_strings (E : PredicateEngine) (env₀ env : Env) :
    Handler.process E env (Db.fresh env₀) (.parsed ((((createObject.addStringToObject "action"
      "create_user").addStringToObject "auth" "root").addNumberToObject "key" 1).addStringToObject
      "role" "admin")) = none ∧
    Handler.process E env (Db.fresh env₀) (.parsed ((((createObject.addStringToObject "action"
      "insert").addStringToObject "auth" "root").addStringToObject "collection" "c").addItemToObject
      "data" (createObject.addNumberToObject "_id" 1))) = none ∧
    Handler.process E env (Db.fresh env₀) (.parsed (((createObject.addStringToObject "action"
      "find").addStringToObject "auth" "root").addStringToObject "collection" "_auth")) = none :=
  ⟨rfl, rfl, rfl⟩

end AevumDb
