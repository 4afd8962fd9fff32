import AevumDb.Json.Item
import AevumDb.Infra.IdGenerator
import AevumDb.Storage.Paths

/-!
# The database controller

`Db` holds the in-memory collections, the primary and secondary indexes, the
schema registry, the registered index fields and the credential cache, and
drives the `Engine` that owns the `.aev` files.  This module models that state
and every operation of `db.cpp` as a function of it.

Three things are inputs of the model rather than state: the predicate engine
(the Rust library behind `rust_adapter`), the two random samples a new `_id`
is drawn from together with the clock `create_user` reads, and whether the
writes an operation makes to its files (its appends, or a compaction's write and
rename) succeed.  The files are kept under the file each collection name
reaches (`Engine.fileKey`), so that `items` and `./items` share a log.  An
operation that the code would run into undefined behaviour or an uncaught
exception on (building a `std::string` from a `NULL` pointer) returns `none`.
Each operation is one atomic step: `rw_lock_` is modelled where it matters, in
the two lock phases of upsert.
-/

namespace AevumDb

open Item

inductive UserRole where
  | none
  | readOnly
  | readWrite
  | admin
  deriving DecidableEq, Repr

abbrev StrMap (V : Type) := AList (fun _ : String => V)

namespace StrMap

variable {V : Type} [Inhabited V]

def get (m : StrMap V) (k : String) : V := (m.lookup k).getD default

def modify (m : StrMap V) (k : String) (f : V -> V) : StrMap V := m.insert k (f (m.get k))

def touch (m : StrMap V) (k : String) : StrMap V := if k ∈ m then m else m.insert k default

variable (m : StrMap V) {k k' : String}

theorem get_of_lookup {v : V} (h : m.lookup k = some v) : m.get k = v := by
  simp only [get, h, Option.getD_some]

@[simp] theorem get_insert_self (k : String) (v : V) : get (m.insert k v) k = v := by
  simp [get]

theorem get_insert_ne (v : V) (h : k' ≠ k) : get (m.insert k v) k' = m.get k' := by
  simp only [get, AList.lookup_insert_ne h]

@[simp] theorem lookup_modify_self (k : String) (f : V -> V) :
    (m.modify k f).lookup k = some (f (m.get k)) :=
  AList.lookup_insert m

theorem lookup_modify_ne (f : V -> V) (h : k' ≠ k) : (m.modify k f).lookup k' = m.lookup k' :=
  AList.lookup_insert_ne h

@[simp] theorem get_modify_self (k : String) (f : V -> V) :
    get (m.modify k f) k = f (m.get k) :=
  get_insert_self m k _

theorem get_modify_ne (f : V -> V) (h : k' ≠ k) : get (m.modify k f) k' = m.get k' :=
  get_insert_ne m _ h

@[simp] theorem mem_modify (f : V -> V) : k' ∈ m.modify k f ↔ k' = k ∨ k' ∈ m :=
  AList.mem_insert m

theorem get_insert (v : V) : get (m.insert k v) k' = if k' = k then v else m.get k' := by
  split
  · subst k'
    exact get_insert_self m _ v
  · exact get_insert_ne m v ‹_›

theorem get_modify (f : V -> V) : get (m.modify k f) k' = if k' = k then f (m.get k) else m.get k' :=
  get_insert m _

theorem get_erase : get (m.erase k) k' = if k' = k then default else m.get k' := by
  split
  · subst k'
    simp [get]
  · simp [get, AList.lookup_erase_ne ‹_›]

@[simp] theorem get_touch (k k' : String) : get (m.touch k) k' = m.get k' := by
  unfold touch; split
  · rfl
  · by_cases hk : k' = k
    · subst hk
      simp [get, AList.lookup_eq_none.mpr ‹k' ∉ m›]
    · exact get_insert_ne m _ hk

end StrMap

/-- The predicate engine behind `rust_adapter`.  Each function receives the items
whose printed text the code passes, and `find` and `update` answer with the item
whose text they return (`none`: text that does not parse). -/
structure PredicateEngine where
  validate : Item -> Item -> Bool
  count : Item -> Item -> Int
  find : Item -> Item -> Item -> Item -> Int -> Int -> Option Item
  update : Item -> Item -> Item -> Option Item

/-- What an operation reads from outside the database: the samples `generate` draws,
`std::time(nullptr)`, and whether its writes succeed: every Engine::append opens its file and
writes the frame, and a compaction writes and renames its temporary file. -/
structure Env where
  p1 : UInt64
  p2 : UInt64
  now : Nat
  ioOk : Bool

abbrev Frame := Option Item

/-- The fields of `Db` (`rw_lock_` aside: locking is modelled where it matters). -/
structure Db where
  /-- The frames of every `.aev` file of `storage_`, under the `fileKey` of the names that reach
  it; a missing key is a missing file. -/
  storage : StrMap (List Frame)
  memoryStore : StrMap (Option Item)
  idIndexes : StrMap (StrMap Item)
  schemas : StrMap Item
  customIndexes : StrMap (StrMap (StrMap (List Item)))
  /-- The `(collection, field)` pairs of `indexed_fields_`; no set in it is ever empty. -/
  indexedFields : List (String × String)
  authCache : StrMap UserRole

/-!
## The storage engine, at the level of frames
-/

namespace Engine

def logFrames (s : StrMap (List Frame)) (coll : String) : List Frame := s.get (fileKey coll)

def append (s : StrMap (List Frame)) (coll : String) (payload : Item) (ok : Bool) :
    StrMap (List Frame) :=
  if ok then s.modify (fileKey coll) (· ++ [some (reparse payload)]) else s

def compact (s : StrMap (List Frame)) (coll : String) (payloads : List Item) (ok : Bool) :
    StrMap (List Frame) :=
  if ok then s.insert (fileKey coll) (payloads.map fun p => some (reparse p)) else s

def listing (s : StrMap (List Frame)) : List String :=
  listCollections ((s.keys.filter fun k => '/' ∉ k.data).map (· ++ ".aev"))

@[simp] theorem fileKey_auth : fileKey "_auth" = "_auth" := fileKey_of_slashFree (by decide)

@[simp] theorem fileKey_schemas : fileKey "_schemas" = "_schemas" := fileKey_of_slashFree (by decide)

@[simp] theorem fileKey_indexes : fileKey "_indexes" = "_indexes" := fileKey_of_slashFree (by decide)

variable (s : StrMap (List Frame)) {coll c k : String}

theorem listing_eq : listing s = s.keys.filter fun k => k ≠ "" ∧ '/' ∉ k.data := by
  rw [listing, listCollections_append_aev fun k hk => by simpa using (List.mem_filter.mp hk).2,
    List.filter_filter]
  congr 1
  funext k
  simp [and_comm]

theorem nodup_listing : (listing s).Nodup := by
  rw [listing_eq]
  exact (AList.keys_nodup s).filter _

theorem mem_listing : k ∈ listing s ↔ k ∈ s.keys ∧ k ≠ "" ∧ '/' ∉ k.data := by
  simp [listing_eq]

theorem fileKey_of_mem_listing (h : k ∈ listing s) : fileKey k = k :=
  fileKey_of_slashFree ((mem_listing s).mp h).2.2

theorem logFrames_of_not_mem_listing (hne : k ≠ "") (hslash : '/' ∉ k.data) (h : k ∉ listing s) :
    logFrames s k = [] := by
  rw [logFrames, fileKey_of_slashFree hslash, StrMap.get,
    AList.lookup_eq_none.mpr fun hk => h ((mem_listing s).mpr ⟨hk, hne, hslash⟩)]
  rfl

@[simp] theorem append_false (coll : String) (payload : Item) : append s coll payload false = s := rfl

@[simp] theorem compact_false (coll : String) (payloads : List Item) : compact s coll payloads false = s :=
  rfl

theorem get_append_ne (payload : Item) (ok : Bool) (h : k ≠ fileKey coll) :
    StrMap.get (append s coll payload ok) k = s.get k := by
  unfold append; split
  · exact StrMap.get_modify_ne s _ h
  · rfl

theorem get_compact_ne (payloads : List Item) (ok : Bool) (h : k ≠ fileKey coll) :
    StrMap.get (compact s coll payloads ok) k = s.get k := by
  unfold compact; split
  · exact StrMap.get_insert_ne s _ h
  · rfl

@[simp] theorem logFrames_append_self (coll : String) (payload : Item) :
    logFrames (append s coll payload true) coll = logFrames s coll ++ [some (reparse payload)] := by
  rw [logFrames, append, if_pos rfl]
  exact StrMap.get_modify_self s _ _

@[simp] theorem logFrames_compact_self (coll : String) (payloads : List Item) :
    logFrames (compact s coll payloads true) coll = payloads.map fun p => some (reparse p) := by
  rw [logFrames, compact, if_pos rfl]
  exact StrMap.get_insert_self s _ _

theorem logFrames_append_ne (payload : Item) (ok : Bool) (h : fileKey c ≠ fileKey coll) :
    logFrames (append s coll payload ok) c = logFrames s c :=
  get_append_ne s payload ok h

theorem logFrames_compact_ne (payloads : List Item) (ok : Bool) (h : fileKey c ≠ fileKey coll) :
    logFrames (compact s coll payloads ok) c = logFrames s c :=
  get_compact_ne s payloads ok h

end Engine

/-!
## Helpers of `Db`

`toStringF` is std::to_string of a double (`%f`: six decimals, and the sign of a
negative zero), the text `update_custom_index` files a number under (`indexKey`).
-/

def toStringF (d : Double) : String :=
  let x := d.val
  let scaled := x.num.natAbs * 10 ^ 6
  let q := scaled / x.den
  let r := scaled % x.den
  let m := if 2 * r < x.den then q else if x.den < 2 * r then q + 1
    else if q % 2 = 0 then q else q + 1
  let frac := toString (m % 10 ^ 6)
  (if x < 0 ∨ d = .negZero then "-" else "") ++ toString (m / 10 ^ 6) ++ "." ++
    String.mk (List.replicate (6 - frac.length) '0') ++ frac

def indexKey : Option Item -> Option String
  | some ⟨.string s, _, _⟩ => some s
  | some ⟨.number v, _, _⟩ => some (toStringF v)
  | _ => none

def hashKey (key : String) : String :=
  let signedChar (c : UInt8) : UInt64 := if c < 128 then c.toUInt64 else c.toUInt64 - 256
  toString ((key.data.flatMap String.utf8EncodeChar).foldl
    (fun (hash : UInt64) c => (hash <<< 5) + hash + signedChar c) 5381)

def parseRole (role : String) : UserRole :=
  if role = "admin" then .admin else if role = "read_write" then .readWrite else .readOnly

def fieldsOf (fields : List (String × String)) (coll : String) : List String :=
  (fields.filter (·.1 == coll)).map (·.2)

abbrev CustomIndexes := StrMap (StrMap (StrMap (List Item)))

namespace CustomIndexes

def entry (ci : CustomIndexes) (coll field key : String) : List Item :=
  ((ci.get coll).get field).get key

def setEntry (ci : CustomIndexes) (coll field key : String) (docs : List Item) : CustomIndexes :=
  ci.modify coll fun fm => fm.modify field fun km => km.insert key docs

def eraseEntry (ci : CustomIndexes) (coll field key : String) : CustomIndexes :=
  ci.modify coll fun fm => fm.modify field fun km => km.erase key

def updateField (ci : CustomIndexes) (coll field : String) (doc : Item) (add : Bool) :
    CustomIndexes :=
  match indexKey (doc.getObjectItem field) with
  | none => ci
  | some key =>
    let vec := ci.entry coll field key
    if add then ci.setEntry coll field key (vec ++ [doc])
    else if doc ∈ vec then
      if vec.erase doc = [] then ci.eraseEntry coll field key
      else ci.setEntry coll field key (vec.erase doc)
    else ci.setEntry coll field key vec

def update (ci : CustomIndexes) (fields : List (String × String)) (coll : String) (doc : Item)
    (add : Bool) : CustomIndexes :=
  if fields.any (·.1 == coll) then
    (fieldsOf fields coll).foldl (fun ci field => ci.updateField coll field doc add) ci
  else ci

end CustomIndexes

def indexRecords (fields : List (String × String)) : Item :=
  ⟨.array, none, fields.map fun (c, f) =>
    (createObject.addStringToObject "collection" c).addStringToObject "field" f⟩

def tombstone (uuid : String) : Item :=
  (createObject.addStringToObject "_id" uuid).addBoolToObject "_deleted" true

def queryKey (child : Item) : String :=
  match child.type with
  | .string s => s
  | .number v => toStringF v
  | _ => ""

def sliceTier2 (docs : List Item) (limit skip : Int) : List Item :=
  let n := docs.length
  let start := (skip % 2 ^ 64).toNat
  let stop := if limit > 0 then min ((start + limit.toNat) % 2 ^ 64) n else n
  if start < n then (docs.drop start).take (stop - start) else []

def hasPermission (userRole : UserRole) (action : String) : Bool :=
  match userRole with
  | .admin => true
  | .readWrite => action == "insert" || action == "update" || action == "delete" ||
      action == "upsert" || action == "find" || action == "count"
  | .readOnly => action == "find" || action == "count"
  | .none => false

namespace Db

variable (E : PredicateEngine)

/-!
## Index maintenance
-/

def updateCustomIndex (db : Db) (coll : String) (doc : Item) (add : Bool) : Db :=
  { db with customIndexes := CustomIndexes.update db.customIndexes db.indexedFields coll doc add }

def indexDocument (db : Db) (coll : String) (item : Item) : Db :=
  let db := match item.docId with
    | some id => { db with idIndexes := db.idIndexes.modify coll (·.insert id item) }
    | none => db
  db.updateCustomIndex coll item true

def rebuildIndex (db : Db) (coll : String) (array : Option Item) : Db :=
  let cleared := { db with idIndexes := db.idIndexes.insert coll ∅,
                            customIndexes := db.customIndexes.insert coll ∅ }
  (children array).foldl (fun db item => db.indexDocument coll item) cleared

def indexId (index : StrMap Item) (item : Item) : StrMap Item :=
  match item.docId with
  | some id => index.insert id item
  | none => index

def primaryIndex (docs : List Item) : StrMap Item := docs.foldl indexId ∅

def secondaryIndex (fields : List (String × String)) (ci : CustomIndexes) (coll : String)
    (docs : List Item) : CustomIndexes :=
  docs.foldl (fun ci item => CustomIndexes.update ci fields coll item true) (ci.insert coll ∅)

theorem indexDocument_insert (db : Db) (coll : String) (item : Item) (index : StrMap Item)
    (ci : CustomIndexes) :
    indexDocument { db with idIndexes := db.idIndexes.insert coll index, customIndexes := ci }
        coll item =
      { db with idIndexes := db.idIndexes.insert coll (indexId index item),
                customIndexes := CustomIndexes.update ci db.indexedFields coll item true } := by
  unfold indexDocument indexId
  split <;> simp only [updateCustomIndex, StrMap.modify, StrMap.get_insert_self, AList.insert_insert]

theorem rebuildIndex_fold (db : Db) (coll : String) (docs : List Item) (index : StrMap Item)
    (ci : CustomIndexes) :
    docs.foldl (fun db item => db.indexDocument coll item)
        { db with idIndexes := db.idIndexes.insert coll index, customIndexes := ci } =
      { db with
        idIndexes := db.idIndexes.insert coll (docs.foldl indexId index),
        customIndexes :=
          docs.foldl (fun ci item => CustomIndexes.update ci db.indexedFields coll item true) ci } := by
  induction docs generalizing index ci with
  | nil => rfl
  | cons item docs ih => rw [List.foldl_cons, indexDocument_insert, ih]; rfl

theorem rebuildIndex_eq (db : Db) (coll : String) (array : Option Item) :
    db.rebuildIndex coll array =
      { db with idIndexes := db.idIndexes.insert coll (primaryIndex (children array)),
                customIndexes :=
                  secondaryIndex db.indexedFields db.customIndexes coll (children array) } :=
  rebuildIndex_fold db coll _ ∅ _

def compactCollection (db : Db) (coll : String) (ok : Bool) : Bool × Db :=
  match db.memoryStore.lookup coll with
  | none => (false, db)
  | some arr => (ok, { db with storage := Engine.compact db.storage coll (children arr) ok })

theorem compactCollection_snd (db : Db) (coll : String) (ok : Bool) :
    (db.compactCollection coll ok).2 =
      { db with storage := match db.memoryStore.lookup coll with
        | none => db.storage
        | some arr => Engine.compact db.storage coll (children arr) ok } := by
  unfold compactCollection; split <;> rfl

def triggerCompaction (env : Env) (db : Db) (coll : String) : Bool × Db :=
  db.compactCollection coll env.ioOk

def getCollection (db : Db) (name : String) : Db :=
  if name ∈ db.memoryStore then db
  else { db with memoryStore := db.memoryStore.insert name (some createArray),
                 idIndexes := db.idIndexes.insert name ∅ }

def validate (db : Db) (coll : String) (data : Item) : Bool :=
  match db.schemas.lookup coll with
  | none => true
  | some schema => E.validate (reparse data) (reparse schema)

/-!
## Writes
-/

def assignId (env : Env) (data : Item) : Option (String × Item) :=
  if data.hasObjectItem "_id" then (data.stringMember "_id").map fun uuid => (uuid, data)
  else
    let uuid := IdGenerator.generate env.p1 env.p2
    some (uuid, data.addStringToObject "_id" uuid)

def insert (env : Env) (db : Db) (coll : String) (data : Item) : Option (Bool × Db) :=
  if !db.validate E coll data then some (false, db) else do
  let db := db.getCollection coll
  let (uuid, newItem) ← assignId env data
  let arr := addItemToArray (db.memoryStore.get coll) newItem
  let db := { db with memoryStore := db.memoryStore.insert coll arr,
                      idIndexes := db.idIndexes.modify coll (·.insert uuid newItem) }
  let db := db.updateCustomIndex coll newItem true
  some (env.ioOk, { db with storage := Engine.append db.storage coll newItem env.ioOk })

def count (db : Db) (coll : String) (query : Option Item) : Option Int :=
  match db.memoryStore.lookup coll with
  | none => some 0
  | some arr =>
    if getArraySize query = 0 then some (getArraySize arr)
    else match arr, query with
      | some a, some q => some (E.count (reparse a) (reparse q))
      | _, _ => none

def update (env : Env) (db : Db) (coll : String) (query data : Item) : Option (Bool × Db) :=
  match db.memoryStore.lookup coll with
  | none => some (false, db)
  | some none => none
  | some (some arr) =>
    let newCollection := (E.update (reparse arr) (reparse query) (reparse data)).map reparse
    let db := { db with memoryStore := db.memoryStore.insert coll newCollection }
    let db := db.rebuildIndex coll newCollection
    some (true, (db.compactCollection coll env.ioOk).2)

def upsert (env : Env) (db : Db) (coll : String) (query data : Item) : Option (Bool × Db) := do
  let existing ← db.count E coll (some query)
  if existing > 0 then db.update E env coll query data else db.insert E env coll data

def setSchema (env : Env) (db : Db) (coll : String) (schema : Item) : Bool × Db :=
  (env.ioOk, { db with schemas := db.schemas.insert coll schema,
                       storage := Engine.append db.storage "_schemas" schema env.ioOk })

def createIndex (env : Env) (db : Db) (coll field : String) : Bool × Db :=
  if (coll, field) ∈ db.indexedFields then (true, db) else
  let db := { db with indexedFields := db.indexedFields ++ [(coll, field)] }
  let db := if coll ∈ db.memoryStore then
      (children (db.memoryStore.get coll)).foldl (fun db item => db.updateCustomIndex coll item true) db
    else db
  let persisted := Engine.compact db.storage "_indexes" [indexRecords db.indexedFields] env.ioOk
  (env.ioOk, { db with storage := persisted })

def userDoc (env : Env) (hashed role : String) : Item :=
  (((createObject.addStringToObject "_id" (IdGenerator.generate env.p1 env.p2)
    ).addStringToObject "key_hash" hashed).addStringToObject "role" role
    ).addNumberToObject "created_at" env.now

def createUser (env : Env) (db : Db) (key role : String) : Bool × Db :=
  let hashed := hashKey key
  let db := { db with authCache := db.authCache.insert hashed (parseRole role) }
  let doc := userDoc env hashed role
  let db := { db with storage := Engine.append db.storage "_auth" doc env.ioOk }
  let db := db.getCollection "_auth"
  let arr := addItemToArray (db.memoryStore.get "_auth") doc
  (env.ioOk, { db with memoryStore := db.memoryStore.insert "_auth" arr })

/-!
## Queries and deletion

Both planners try the primary index, then a registered field's index, then a
full scan in the predicate engine.  `operator[]` reads on `id_indexes_` and
`custom_indexes_` insert the keys they miss, and the model keeps those
insertions.
-/

def findTier1 (db : Db) (coll : String) (query : Option Item) (simpleReq : Bool) :
    Option (Item × Db) :=
  match simpleReq, query.bind (·.getObjectItem "_id") with
  | true, some ⟨.string targetId, _, _⟩ =>
    let db := { db with idIndexes := db.idIndexes.touch coll }
    match (db.idIndexes.get coll).lookup targetId with
    | some doc => some (⟨.array, none, [doc]⟩, db)
    | none => some (createArray, db)
  | _, _ => none

def findTier2 (db : Db) (coll : String) (query : Option Item) (simpleReq : Bool)
    (limit skip : Int) : Option (Item × Db) :=
  match simpleReq, query with
  | true, some ⟨_, _, child :: rest⟩ =>
    match rest, child.string with
    | [], some field =>
      if (coll, field) ∈ db.indexedFields then
        let key := queryKey child
        if key = "" then none
        else
          let ci := db.customIndexes.modify coll fun fm => fm.touch field
          let db := { db with customIndexes := ci }
          match ((ci.get coll).get field).lookup key with
          | some docs => some (⟨.array, none, sliceTier2 docs limit skip⟩, db)
          | none => some (createArray, db)
      else none
    | _, _ => none
  | _, _ => none

def find (db : Db) (coll : String) (query sort projection : Option Item) (limit skip : Int) :
    Option (Option Item × Db) :=
  match db.memoryStore.lookup coll with
  | none => some (some createArray, db)
  | some arr =>
    let simpleReq := getArraySize sort == 0 && getArraySize projection == 0
    match db.findTier1 coll query simpleReq, db.findTier2 coll query simpleReq limit skip, arr,
      query with
    | some (res, db), _, _, _ => some (some res, db)
    | none, some (res, db), _, _ => some (some res, db)
    | none, none, some a, some q =>
      let sortText := reparse (sort.getD createObject)
      let projectionText := reparse (projection.getD createObject)
      some ((E.find (reparse a) (reparse q) sortText projectionText limit skip).map reparse, db)
    | none, none, _, _ => none

def removeIndexed (db : Db) (coll : String) (query : Item) : List String × Db :=
  match query.child, query.getObjectItem "_id" with
  | [_], some ⟨.string id, _, _⟩ =>
    let db := { db with idIndexes := db.idIndexes.touch coll }
    (if id ∈ db.idIndexes.get coll then [id] else [], db)
  | [child], _ =>
    match child.string with
    | some field =>
      if (coll, field) ∈ db.indexedFields ∧ queryKey child ≠ "" then
        let db := { db with customIndexes := db.customIndexes.touch coll }
        match (db.customIndexes.get coll).lookup field with
        | some keys => ((((keys.lookup (queryKey child)).getD []).filterMap docId), db)
        | none => ([], db)
      else ([], db)
    | none => ([], db)
  | _, _ => ([], db)

def removeTargets (db : Db) (coll : String) (query : Item) : Option (List String × Db) :=
  let (ids, db) := db.removeIndexed coll query
  if ids.isEmpty then
    match db.memoryStore.get coll with
    | some arr =>
      let found := (E.find (reparse arr) (reparse query) createObject createObject 0 0).map reparse
      some ((children found).filterMap docId, db)
    | none => none
  else some (ids, db)

def removeOne (env : Env) (db : Db) (coll uuid : String) : Db :=
  let db := { db with idIndexes := db.idIndexes.touch coll }
  match (db.idIndexes.get coll).lookup uuid with
  | none => db
  | some target =>
    let db := { db with storage := Engine.append db.storage coll (tombstone uuid) env.ioOk }
    let db := db.updateCustomIndex coll target false
    { db with idIndexes := db.idIndexes.modify coll (·.erase uuid),
              memoryStore := db.memoryStore.modify coll (detachItemViaPointer · target) }

def remove (env : Env) (db : Db) (coll : String) (query : Item) : Option (Bool × Db) :=
  if coll ∈ db.memoryStore then do
    let (ids, db) ← db.removeTargets E coll query
    if ids.isEmpty then some (false, db)
    else some (true, ids.foldl (fun db uuid => db.removeOne env coll uuid) db)
  else some (false, db)

def authenticate (db : Db) (key : String) : UserRole :=
  if key = "" then .none else (db.authCache.lookup (hashKey key)).getD .none

end Db

end AevumDb
