import AevumDb.Storage.Db

/-!
# Recovery

`Db::load_all` replays every `.aev` file the directory listing returns, in the
listing's order: `_indexes` registers index fields, `_schemas` fills the schema
registry, and every other file is replayed into a map from `_id` to its last
document (a tombstone erases the entry), which becomes the collection's array
in the map's iteration order.  The constructor then bootstraps a `root` admin
when no credential was loaded.

The iteration order of `temp_map` is unspecified, so the model takes it as an
argument `order` that the statements about recovery require to be a
permutation.
-/

namespace AevumDb

open Item

namespace Recovery

abbrev TempMap := StrMap Item

def replayFrame (m : TempMap) : Frame -> TempMap
  | none => m
  | some item =>
    match item.docId with
    | none => m
    | some uuid => if isTrue (item.getObjectItem "_deleted") then m.erase uuid else m.insert uuid item

def replay (frames : List Frame) : TempMap := frames.foldl replayFrame ∅

def collectionArray (order : String -> List Item -> List Item) (name : String) (logs : List Frame) :
    Item :=
  ⟨.array, none, order name ((replay logs).entries.map (·.2))⟩

def loadSchemaFrame (schemas : StrMap Item) : Frame -> StrMap Item
  | none => schemas
  | some item =>
    match item.stringMember "collection" with
    | some coll => schemas.insert coll item
    | none => schemas

def loadIndexRecord (fields : List (String × String)) (item : Item) :
    Option (List (String × String)) :=
  match item.getObjectItem "collection", item.getObjectItem "field" with
  | some c, some f =>
    match c.valuestring, f.valuestring with
    | some coll, some field =>
      some (if (coll, field) ∈ fields then fields else fields ++ [(coll, field)])
    | _, _ => none
  | _, _ => some fields

def loadIndexFrame (fields : List (String × String)) : Frame -> Option (List (String × String))
  | none => some fields
  | some arr => arr.child.foldlM loadIndexRecord fields

def loadCredential (cache : StrMap UserRole) (item : Item) : Option (StrMap UserRole) :=
  match item.getObjectItem "key_hash", item.getObjectItem "role" with
  | some k, some r =>
    match r.valuestring, k.valuestring with
    | some role, some hashed => some (cache.insert hashed (parseRole role))
    | _, _ => none
  | _, _ => some cache

end Recovery

namespace Db

open Recovery

def loadCollection (order : String -> List Item -> List Item) (env : Env) (db : Db)
    (name : String) : Option Db :=
  let logs := Engine.logFrames db.storage name
  if name = "_indexes" then
    (logs.foldlM loadIndexFrame db.indexedFields).map fun fields => { db with indexedFields := fields }
  else if name = "_schemas" then
    some { db with schemas := logs.foldl loadSchemaFrame db.schemas }
  else
    let live := replay logs
    let arr := collectionArray order name logs
    let db := { db with memoryStore := db.memoryStore.insert name (some arr) }
    let db := db.rebuildIndex name (some arr)
    let loaded := if name = "_auth" then
        (arr.child.foldlM loadCredential db.authCache).map fun cache => { db with authCache := cache }
      else some db
    loaded.map fun db =>
      if logs.length > live.entries.length * 2 ∧ live.entries.length > 100 then
        (db.compactCollection name env.ioOk).2
      else db

def loadAll (order : String -> List Item -> List Item) (env : Env) (names : List String)
    (db : Db) : Option Db :=
  names.foldlM (loadCollection order env) db

def onDisk (disk : StrMap (List Frame)) : Db :=
  { storage := disk, memoryStore := ∅, idIndexes := ∅, schemas := ∅, customIndexes := ∅,
    indexedFields := [], authCache := ∅ }

def construct (order : String -> List Item -> List Item) (env : Env)
    (disk : StrMap (List Frame)) (names : List String) : Option Db := do
  let db ← loadAll order env names (onDisk disk)
  if db.authCache.entries.isEmpty then some (db.createUser env "root" "admin").2 else some db

end Db

end AevumDb
